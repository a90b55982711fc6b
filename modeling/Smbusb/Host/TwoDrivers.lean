import Smbusb.Host.I2cdev
import Smbusb.Host.WriteBlock

/-!
# Block writes of the two drivers

Both drivers have a `SMBWriteBlock`.  The FX2LP driver hands count and data to the
firmware, which builds the frame.  The I2CDEV driver builds it itself and hands it to the
kernel.  `SameWriteBlock` is what a caller that may get either driver relies on: the bus
sees the frame of the block, and the value is its length, which the flashers test for.

The I2CDEV driver leaves the PEC out and returns 0.  So the two agree on empty blocks
without PEC only (`sameWriteBlock_iff`).  The firmware has one more reason not to send the
frame: a sequence that is still live takes the request for its own (`serve_live`).
-/

namespace Smbusb

open Logic Prog Fw Fx2lp

/-! ## The firmware inside a sequence -/

section Live

variable {T : Target} {s : Fx2}

/-- What a write of a live sequence may put on the bus: nothing, or the block of that
sequence. -/
def LiveWrite (s : Fx2) (ext : List Event) : Prop :=
  ext = [] ∨
    ∃ frame, ext = frameTrace frame ∧ frame.length = s.templen.toNat + 3 + s.pecEnabled.toNat

/-- A cursor at the end or behind it stores nothing. -/
theorem writeBlockStore_of_le (fuel : Nat) (h : s.templen ≤ s.tempptr) :
    Handler.writeBlockStore fuel s = .ok () s := by
  simp only [Handler.writeBlockStore, bind, EStateM.bind, get,
    getThe, MonadStateOf.get, EStateM.get,
    if_neg (BitVec.not_lt.mpr h)]
  rfl

/-- A write request that finds a live sequence never sends a block of its own. -/
theorem serve_live (setup : Setup) (hT : AcksAll T) (hlive : s.expire.templen ≠ 0)
    (hlen : s.templen.toNat < 256) :
    ∃ ok s' ext, serve T smbWriteBlock setup s = (ok, s') ∧ s'.trace = s.trace ++ ext ∧
      LiveWrite s ext := by
  have hcount := Fx2.live_of_expire hlive
  have hexp : s.expire = s := Fx2.expire_of_live hcount
  rw [hexp] at hlive
  have hpos : 0 < s.templen := by
    rw [BitVec.lt_def]
    exact Nat.pos_of_ne_zero fun h => hlive (BitVec.eq_of_toNat_eq h)
  rcases Nat.lt_or_ge s.tempptr.toNat s.templen.toNat with hptr | hptr
  · rcases Nat.lt_or_ge (s.tempptr.toNat + 64) s.templen.toNat with hmore | hlast
    · have hrun :=
        writeBlock_stores T loopFuel setup.value setup.index (by decide) s hcount hlen hmore
      exact ⟨true, _, [], serve_of_run _ hrun, (List.append_nil _).symm, .inl rfl⟩
    · have hrun := writeBlock_completes T loopFuel setup.value setup.index (by decide) s hcount hlen
        hptr hlast
      dsimp only at hrun
      generalize hframe : blockFrame s.pecEnabled _ _ _ _ = frame at hrun
      obtain ⟨hok, hext⟩ := sendFrame_of_acks hT frame s.toI2c
      rw [hok, if_pos rfl] at hrun
      refine ⟨true, _, frameTrace frame, serve_of_run _ hrun, hext, .inr ⟨frame, rfl, ?_⟩⟩
      rw [← hframe, length_blockFrame, List.length_append, Mem.length_read, Mem.length_read]
      omega
  · have hstore := writeBlockStore_of_le loopFuel (BitVec.le_def.mpr hptr)
    have hrun := writeBlock_eq T loopFuel setup.value setup.index s
    rw [hexp, if_neg (fun h => hlive h.1), if_pos hpos] at hrun
    simp only [bind, EStateM.bind, hstore, get, getThe, MonadStateOf.get, EStateM.get] at hrun
    by_cases hall : s.tempptr = s.templen
    · obtain ⟨o, -, -, hsend⟩ :=
        writeBlockSendTemp_run T loopFuel setup.value setup.index (by decide) s hlen
      generalize hframe : blockFrame s.pecEnabled _ _ _ _ = frame at hsend
      obtain ⟨hok, hext⟩ := sendFrame_of_acks hT frame s.toI2c
      rw [hok, if_pos rfl] at hsend
      rw [if_pos hall, hsend] at hrun
      refine ⟨true, _, frameTrace frame, serve_of_run _ hrun, hext, .inr ⟨frame, rfl, ?_⟩⟩
      rw [← hframe, length_blockFrame, Mem.length_read]
    · rw [if_neg hall] at hrun
      exact ⟨true, s, [], serve_of_run _ hrun, (List.append_nil _).symm, .inl rfl⟩

end Live

/-! ## The kernel on a bus that ACKs everything -/

/-- What the I2CDEV driver relies on.  `bus` is what has been on the bus. -/
structure Adapter.SendsAll {S : Type} (k : Adapter S) (bus : S → List Event) : Prop where
  /-- `I2C_PEC` is answered and sends nothing. -/
  pec : ∀ select s, ¬ (k.ioctl (.pec select) s).1.Interrupted ∧
    bus (k.ioctl (.pec select) s).2 = bus s
  /-- `I2C_RDWR` sends `msg.len` bytes of `msg.buf` behind the address. -/
  rdwr : ∀ addr len buf s, len ≤ buf.length →
    0 ≤ (k.ioctl (.rdwr [⟨addr, 0, len, buf⟩]) s).1.ret ∧
      bus (k.ioctl (.rdwr [⟨addr, 0, len, buf⟩]) s).2 =
        bus s ++ frameTrace (toByte (addr <<< 1) :: buf.take len)

/-! ## The two block writes -/

section Same

variable {S : Type} (T : Target) (way : Nat → Delivery) (k : Adapter S) (bus : S → List Event)
  (fuel : Nat) (state : Byte) (address : UInt) (command : Byte) (data : List Byte) (len : Byte)

/-- `SMBEnablePEC` and then `SMBWriteBlock`, with the FX2LP driver and its firmware. -/
def fx2lpWriteBlock (s : Fx2) : Int × Fx2 :=
  let l := Fx2lp.enablePec (usb T way) state ⟨s, 0⟩
  let (ret, l) := Fx2lp.writeBlock (usb T way) address command data len l
  (ret, l.fx2)

/-- The same calls with the I2CDEV driver. -/
def i2cdevWriteBlock (c : I2cCtx S) : Option (Int × I2cCtx S) := do
  let c ← I2cdev.enablePec k fuel state c
  I2cdev.writeBlock k fuel address command data len c

/-- The frame of a block write, with the PEC when it is enabled. -/
def pecFrame : List Byte :=
  blockFrame (decide (state ≠ 0)) (address.setWidth 8) command len data

/-- Both drivers put the frame of the block on the bus and return its length. -/
structure SameWriteBlock (s : Fx2) (c : I2cCtx S) : Prop where
  fx2lpRet : (fx2lpWriteBlock T way state address command data len s).1 = len.toNat
  fx2lpBus : (fx2lpWriteBlock T way state address command data len s).2.trace =
    s.trace ++ frameTrace (pecFrame state address command data len)
  i2cdev : ∃ c', i2cdevWriteBlock k fuel state address command data len c =
      some ((len.toNat : Int), c') ∧
    bus c'.file = bus c.file ++ frameTrace (pecFrame state address command data len)

/-- The firmware when the block write arrives. -/
def atWrite (s : Fx2) : Fx2 := (s.tick (way 0).gap).tick (way 1).gap

end Same

section Sides

variable {S : Type} {T : Target} {way : Nat → Delivery} {k : Adapter S} {bus : S → List Event}
  {fuel : Nat} {state : Byte} {address : UInt} {command : Byte} {data : List Byte} {len : Byte}

variable (state) in
theorem i2cdevEnablePec_eq (hk : k.SendsAll bus) (hfuel : 0 < fuel) (c : I2cCtx S) :
    ∃ c', I2cdev.enablePec k fuel state c = some c' ∧ bus c'.file = bus c.file := by
  obtain ⟨pecEnabled, swPec, file⟩ := c
  obtain ⟨hcall, hbus⟩ := hk.pec (decide (state ≠ 0)) file
  refine ⟨⟨if swPec then decide (state ≠ 0) else pecEnabled, swPec, _⟩, ?_, hbus⟩
  cases swPec with
  | false =>
      have hfile := I2cdev.onFile_of_not_interrupted (c := ⟨pecEnabled, false, file⟩) hfuel hcall
      simp only [I2cdev.enablePec, I2cdev.smbusPec, Bool.false_eq_true, if_false, hfile]
      rfl
  | true =>
      have hfile :=
        I2cdev.onFile_of_not_interrupted (c := ⟨decide (state ≠ 0), true, file⟩) hfuel hcall
      simp only [I2cdev.enablePec, I2cdev.smbusPec, if_true, hfile]
      rfl

/-- The kernel shifts the address back: only the direction bit is lost. -/
theorem addressByte_eq (heven : address.getLsbD 0 = false) :
    toByte ((((address.setWidth 8 : Byte) >>> 1).setWidth 16 : Word) <<< 1) =
      address.setWidth 8 := by
  apply BitVec.eq_of_getLsbD_eq
  intro i hi
  cases i with
  | zero => simpa [toByte] using heven
  | succ i =>
      simp only [toByte, BitVec.getLsbD_setWidth, BitVec.getLsbD_shiftLeft,
        BitVec.getLsbD_ushiftRight]
      have h1 : i < 16 := by omega
      simp [hi, Nat.add_comm 1 i, h1]
      omega

variable (state command) in
/-- The frame of the I2CDEV driver never has a PEC, and the value is always 0. -/
theorem i2cdevWriteBlock_eq (hk : k.SendsAll bus) (hfuel : 0 < fuel)
    (heven : address.getLsbD 0 = false) (hdata : data.length = len.toNat) (c : I2cCtx S) :
    ∃ c', i2cdevWriteBlock k fuel state address command data len c = some (0, c') ∧
      bus c'.file = bus c.file ++
        frameTrace (blockFrame false (address.setWidth 8) command len data) := by
  obtain ⟨c₁, hpec, hbus₁⟩ := i2cdevEnablePec_eq state hk hfuel c
  have htake : data.take len.toNat = data := List.take_of_length_le (Nat.le_of_eq hdata)
  have hbuf : (command :: len :: data).length = len.toNat + 2 := by
    rw [List.length_cons, List.length_cons, hdata]
  obtain ⟨hret, hbus⟩ := hk.rdwr (((address.setWidth 8 : Byte) >>> 1).setWidth 16) (len.toNat + 2)
    (command :: len :: data) c₁.file (Nat.le_of_eq hbuf.symm)
  rw [addressByte_eq heven, List.take_of_length_le (Nat.le_of_eq hbuf), hbus₁] at hbus
  have hfile := I2cdev.onFile_of_not_interrupted (c := c₁) hfuel
    (I2cdev.not_interrupted_of_nonneg hret)
  generalize k.ioctl _ c₁.file = r at hret hbus hfile
  refine ⟨{ c₁ with file := r.2 }, ?_, ?_⟩
  · rw [i2cdevWriteBlock, hpec]
    simp only [bind, Option.bind, I2cdev.writeBlock, I2cdev.smbusWriteBlockDataRelax, htake, hfile,
      if_neg (Int.not_lt.mpr hret)]
    rfl
  · rw [blockFrame, if_neg Bool.false_ne_true, List.append_nil]
    exact hbus

/-- What `ENABLE_PEC` does in the firmware. -/
theorem enablePec_run (T : Target) (setup : Setup) (s : Fx2) :
    ∃ s', serve T smbEnablePec setup s = (true, s') ∧ s'.trace = s.trace ∧
      s'.pecEnabled = decide (0 < setup.value) ∧ s'.templen = s.templen ∧ s'.count = s.count := by
  let s₁ := { s with ep0bcl := 0, pecEnabled := decide (0 < setup.value) }
  have hrun : handleVendorcommand T loopFuel smbEnablePec setup s =
      .ok true (if s₁.pecEnabled then s₁ else { s₁ with mrqPec := 0, rcvPec := 0 }) := rfl
  refine ⟨_, serve_of_run smbEnablePec hrun, ?_⟩
  split
  · exact ⟨rfl, rfl, rfl, rfl⟩
  · exact ⟨rfl, rfl, rfl, rfl⟩

variable (T state) in
/-- Enabling the PEC leaves the bus and the sequence alone. -/
theorem fx2lpEnablePec_eq (hdel : ∀ k, (way k).fate = .delivered) (s : Fx2) :
    ∃ s', Fx2lp.enablePec (usb T way) state ⟨s, 0⟩ = ⟨s', 1⟩ ∧ s'.trace = s.trace ∧
      s'.pecEnabled = decide (state ≠ 0) ∧ s'.templen = s.templen ∧
      s'.count = (s.tick (way 0).gap).count := by
  obtain ⟨s', hserve, htrace, hpec, hlen, hcount⟩ := enablePec_run T
    ⟨if 0 < state then 1 else 0, 0⟩ ((s.tick (way 0).gap).load [])
  refine ⟨s', ?_, htrace, ?_, hlen, hcount⟩
  · simp only [Fx2lp.enablePec, usb, hdel, hserve]
  · rw [hpec]
    by_cases hoff : state = 0
    · rw [hoff]
      rfl
    · have hon : 0 < state := (BitVec.pos_iff_ne_zero state).mpr hoff
      rw [if_pos hon, decide_eq_true hoff]
      rfl

/-- On the way to the firmware the address is cut to a byte. -/
theorem writeFrame_setupOf (pec : Bool) :
    writeFrame pec (setupOf address command) data =
      blockFrame pec (address.setWidth 8) command (BitVec.ofNat 8 data.length) data := by
  have haddr : toByte (address.setWidth 16) = address.setWidth 8 :=
    BitVec.setWidth_setWidth_of_le address (by decide)
  have hcmd : toByte (command.setWidth 16) = command := by
    rw [toByte, BitVec.setWidth_setWidth_of_le command (by decide), BitVec.setWidth_eq]
  rw [writeFrame, setupOf, haddr, hcmd]

variable (T state address command) in
/-- With the FX2LP driver a short block is one request. -/
theorem fx2lpWriteBlock_eq (hdel : ∀ k, (way k).fate = .delivered)
    (hdata : data.length = len.toNat) (hlen : len.toNat ≤ 63) (s : Fx2) :
    ∃ (s₁ : Fx2) (ok : Bool) (s' : Fx2), s₁.trace = s.trace ∧ s₁.pecEnabled = decide (state ≠ 0) ∧
      s₁.templen = s.templen ∧ s₁.count = (atWrite way s).count ∧
      serve T smbWriteBlock (setupOf address command) (s₁.load (len :: data)) = (ok, s') ∧
      (fx2lpWriteBlock T way state address command data len s).2 = s' ∧
      (ok = true → (fx2lpWriteBlock T way state address command data len s).1 = len.toNat) := by
  obtain ⟨s₀, hpec, htrace, henabled, htl, hcount⟩ :=
    fx2lpEnablePec_eq T state hdel s
  have harr : (way 1).fate.arrives = true := by rw [hdel 1]; rfl
  generalize hserve : serve T smbWriteBlock (setupOf address command)
    ((s₀.tick (way 1).gap).load (len :: data)) = r
  obtain ⟨ok, s'⟩ := r
  obtain ⟨status, hsend⟩ := sendChunks_served (l := ⟨s₀, 1⟩) way [] harr hserve
  have hchunks : chunks 64 (len :: data) = [len :: data] :=
    chunks_last (Nat.zero_lt_succ _) (by rw [List.length_cons]; omega)
  have hrun : fx2lpWriteBlock T way state address command data len s =
      (if ok = true then (len.toNat : Int) else status, s') := by
    simp only [fx2lpWriteBlock, hpec, writeBlock_eq_sendChunks _ _ _ _ _ _ hdata, hchunks, hsend,
      hdel 1, and_true]
    cases ok with
    | true => rfl
    | false => rfl
  refine ⟨s₀.tick (way 1).gap, ok, s', htrace, henabled, htl, ?_, hserve, ?_, ?_⟩
  · simp only [atWrite, Fx2.tick, hcount]
  · rw [hrun]
  · rintro rfl
    rw [hrun]
    rfl

end Sides

section Main

variable {S : Type} {T : Target} {way : Nat → Delivery} {k : Adapter S} {bus : S → List Event}
  {fuel : Nat} {state : Byte} {address : UInt} {command : Byte} {data : List Byte} {len : Byte}

theorem Fx2.expire_templen_congr {s s' : Fx2} (hlen : s.templen = s'.templen)
    (hcount : s.count = s'.count) : s.expire.templen = s'.expire.templen := by
  simp only [Fx2.expire, hlen, hcount]
  split
  · rfl
  · exact hlen

/-- When the two drivers do the same block write: the length and the PEC are those the
I2CDEV driver gets right, and no sequence takes the request away in the firmware. -/
theorem sameWriteBlock_iff (hT : AcksAll T) (hk : k.SendsAll bus) (hfuel : 0 < fuel)
    (hdel : ∀ k, (way k).fate = .delivered) (heven : address.getLsbD 0 = false)
    (hdata : data.length = len.toNat) (hlen : len.toNat ≤ 63) {s : Fx2}
    (hs : s.templen.toNat < 256) (c : I2cCtx S) :
    SameWriteBlock T way k bus fuel state address command data len s c ↔
      len = 0 ∧ state = 0 ∧ (atWrite way s).expire.templen = 0 := by
  obtain ⟨s₁, ok, s', htrace, hpec, htl, hcount, hserve, hstate, hret⟩ :=
    fx2lpWriteBlock_eq T state address command hdel hdata hlen s
  obtain ⟨c', hi2c, hbus⟩ :=
    i2cdevWriteBlock_eq state command hk hfuel heven hdata c
  have hexp : (atWrite way s).expire.templen = (s₁.load (len :: data)).expire.templen :=
    Fx2.expire_templen_congr htl.symm hcount.symm
  rw [hexp]
  constructor
  · rintro ⟨-, hfx, c'', hi2c', hbus'⟩
    obtain ⟨hzero, rfl⟩ : (0 : Int) = len.toNat ∧ c' = c'' := by
      simpa [hi2c] using hi2c'
    have hlen0 : len = 0 := BitVec.eq_of_toNat_eq (by simpa using hzero.symm)
    have hnil : data = [] := List.eq_nil_of_length_eq_zero (by rw [hdata, hlen0]; rfl)
    subst hlen0 hnil
    have hframe := congrArg List.length (List.append_cancel_left (hbus.symm.trans hbus'))
    rw [pecFrame, length_frameTrace, length_frameTrace, length_blockFrame,
      length_blockFrame] at hframe
    have hoff : state = 0 := by
      by_contra hon
      rw [decide_eq_true hon] at hframe
      exact absurd hframe (by decide)
    refine ⟨rfl, hoff, ?_⟩
    by_contra hlive
    obtain ⟨ok', s'', ext, hserve', hext, hlw⟩ := serve_live (setupOf address command) hT hlive
      (by rw [Fx2.load, htl]; exact hs)
    obtain ⟨rfl, rfl⟩ : ok = ok' ∧ s' = s'' := Prod.mk.inj (hserve.symm.trans hserve')
    rw [hstate, hext, Fx2.load, htrace] at hfx
    have hlength := congrArg List.length (List.append_cancel_left hfx)
    rw [pecFrame, length_frameTrace, length_blockFrame] at hlength
    rcases hlw with rfl | ⟨frame, rfl, hlw⟩
    · exact absurd hlength (by simp)
    · -- The frame of the live sequence is longer than an empty block.
      have hzero : (s₁.load [0]).templen = 0 := by
        apply BitVec.eq_of_toNat_eq
        have hpec' : (s₁.load [0]).pecEnabled = decide (state ≠ 0) := hpec
        rw [length_frameTrace, hlw, hpec'] at hlength
        simp at hlength
        simpa using hlength
      rw [Fx2.expire_of_empty hzero] at hlive
      exact hlive hzero
  · rintro ⟨rfl, rfl, hidle⟩
    have hnil : data = [] := List.eq_nil_of_length_eq_zero hdata
    subst hnil
    rw [Fx2.expire_load] at hidle
    obtain ⟨s'', hserve', hsend, -⟩ := serve_whole (s := s₁) T (setupOf address command) []
      hidle (by decide)
    obtain ⟨hok, hext⟩ := sendFrame_of_acks hT
      (writeFrame s₁.pecEnabled (setupOf address command) []) s₁.toI2c
    obtain ⟨rfl, rfl⟩ := Prod.mk.inj (hserve.symm.trans hserve')
    refine ⟨hret hok, ?_, c', hi2c, hbus⟩
    rw [Extends, htrace] at hext
    rw [hstate, hsend, hext, hpec, writeFrame_setupOf]
    rfl

end Main

/-- A kernel on a bus that ACKs every write message. -/
def ackingAdapter : Adapter (List Event) where
  ioctl
    | .rdwr [msg], bus =>
        (⟨1, 0⟩, bus ++ frameTrace (toByte (msg.addr <<< 1) :: msg.buf.take msg.len))
    | _, bus => (⟨0, 0⟩, bus)

theorem ackingAdapter_sendsAll : ackingAdapter.SendsAll id where
  pec _ _ := ⟨I2cdev.not_interrupted_of_nonneg (Int.le_refl 0), rfl⟩
  rdwr _ _ _ _ _ := ⟨Int.one_nonneg, rfl⟩

/-- An empty block without PEC. -/
theorem sameWriteBlock_empty :
    SameWriteBlock (.answers []) (Delivery.all 0) ackingAdapter id 1 0 0x16 0x20 [] 0 Fx2.init
      ⟨false, false, []⟩ :=
  (sameWriteBlock_iff (acksAll_answers []) ackingAdapter_sendsAll (by decide) (fun _ => rfl)
    (by decide) rfl (by decide) (by decide) _).mpr ⟨rfl, rfl, by decide⟩

/-- The write with which the flashers set the address of a block. -/
theorem not_sameWriteBlock_three :
    ¬ SameWriteBlock (.answers []) (Delivery.all 0) ackingAdapter id 1 0 0x16 0x20 [1, 2, 3] 3
      Fx2.init ⟨false, false, []⟩ := by
  rintro ⟨-, -, c', hi2c, -⟩
  have hdata : ([1, 2, 3] : List Byte).length = (3 : Byte).toNat := rfl
  obtain ⟨c'', hzero, -⟩ := i2cdevWriteBlock_eq 0 0x20 ackingAdapter_sendsAll Nat.one_pos
    (by decide : (0x16 : UInt).getLsbD 0 = false) hdata ⟨false, false, []⟩
  rw [hzero] at hi2c
  exact absurd (Prod.mk.inj (Option.some.inj hi2c)).1 (by decide)

end Smbusb
