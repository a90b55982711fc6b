import Smbusb.Host.I2cTransfers

/-!
# A bus behind an I2C adapter

What the kernel and its bus driver make of the calls of the I2CDEV driver, with a device on the
bus.

*Frames.*  A transfer that writes is a frame, as the comments of the driver draw it: START, the
address, the bytes, the packet error code if the kernel is to add it, and STOP.  `Sent` says what
becomes of one: the device takes it to its end, or it breaks off somewhere.  `Fetched` says the
same of a transfer that addresses a command and reads.

*Adapters.*  An adapter `Serves` a device when its transfers are these, and none of them is
interrupted.  It may fail at any time, unless it is `calm`: then it fails only at a byte that the
device has no use for.

*Calls.*  The frame of a command is a call of the device (`Sent.called`), and so is a read
(`Fetched.called`).  To another address they leave the device as it is.

`BusFile.adapter` is an adapter with nothing but a device on its bus.
-/

namespace Smbusb

open Logic

section

variable {D : Type} (dev : BusDevice D) (calm : Prop)

/-! ## Frames -/

/-- What becomes of a frame. -/
inductive Sent (frame : List Byte) (m : D) : IoctlResult → D → Prop
  /-- The device takes it to its end. -/
  | taken {r : IoctlResult} (ret : 0 ≤ r.ret)
      (goes : (dev.takeAll frame ⟨.begun, m⟩).phase ≠ .idle) :
      Sent frame m r (dev.stop (dev.takeAll frame ⟨.begun, m⟩)).mem
  /-- The device is left with a beginning. -/
  | broken {r : IoctlResult} {σ : Slave D} (ret : r.ret < 0) (done : ¬ r.Interrupted)
      (left : dev.Broken frame ⟨.begun, m⟩ σ)
      (refused : calm → (dev.takeAll frame ⟨.begun, m⟩).phase = .idle) : Sent frame m r σ.mem

/-- The device behind the first half of a read: address and command, a repeated START, and the
address for reading. -/
def BusDevice.addressed (a command : Byte) (m : D) : Slave D :=
  dev.take (a + 1) (dev.see .quick [] .restart (dev.takeAll [a, command] ⟨.begun, m⟩))

/-- What becomes of a read of `n` bytes. -/
inductive Fetched (a command : Byte) (n : Nat) (m : D) : IoctlResult → List Byte → D → Prop
  /-- The device sends the bytes. -/
  | got {r : IoctlResult} {bs : List Byte} {m' : D} (ret : 0 ≤ r.ret)
      (sends : dev.addressed a command m = ⟨.sending bs, m'⟩) :
      Fetched a command n m r ((List.range n).map fun i => bs.getD i 0xFF) m'
  /-- It breaks off before the device is addressed for reading, or behind that. -/
  | broken {r : IoctlResult} {bytes : List Byte} {m' : D} (ret : r.ret < 0)
      (done : ¬ r.Interrupted)
      (left : (∃ σ, dev.Broken [a, command] ⟨.begun, m⟩ σ ∧ m' = σ.mem) ∨
        m' = (dev.addressed a command m).mem)
      (refused : calm → (dev.addressed a command m).phase = .idle) :
      Fetched a command n m r bytes m'

/-! ## Adapters -/

/-- The bytes of a data block. -/
def DataSize.bytes (data : Word) : DataSize → List Byte
  | byteData => [data.setWidth 8]
  | wordData => wordBytes (data.setWidth 32)

/-- How many there are. -/
def DataSize.count : DataSize → Nat
  | byteData => 1
  | wordData => 2

/-- The address byte of a frame. -/
def wire (address : UInt) : Byte := address.setWidth 8 &&& 0xFE

/-- What is behind an adapter: the device, the address and the PEC that were selected. -/
structure FileView (S D : Type) where
  mem : S → D
  slave : S → Byte
  pec : S → Bool

/-- The transfers of an adapter reach the device.  None is interrupted: one that fails with `EINTR`
or `EAGAIN` would be made again by `xioctl`, also when the device has taken it. -/
structure DataAdapter.Serves {S : Type} (k : DataAdapter S) (view : FileView S D) : Prop where
  /-- `I2C_SLAVE`. -/
  slave : ∀ s (a : Word), let r := k.ioctl (.slave a) s
    ¬ r.1.Interrupted ∧ view.mem r.2 = view.mem s ∧ view.pec r.2 = view.pec s ∧
      (r.1.ret < 0 ∨ r.1.ret = 0 ∧ view.slave r.2 = toByte (a <<< 1)) ∧
      (calm → a ≤ 0x7F → r.1.ret = 0)
  /-- `I2C_PEC`. -/
  pec : ∀ s on, let r := k.ioctl (.pec on) s
    r.1.ret = 0 ∧ view.mem r.2 = view.mem s ∧ view.pec r.2 = on
  /-- S Addr Wr [A] P -/
  quick : ∀ s, let r := k.ioctl (.smbus i2cSmbusWrite 0 .quick) s
    Sent dev calm [view.slave s] (view.mem s) r.1 (view.mem r.2) ∧ view.pec r.2 = view.pec s
  /-- S Addr Wr [A] Data [A] P -/
  byte : ∀ s command, let r := k.ioctl (.smbus i2cSmbusWrite command .byte) s
    Sent dev calm (coded (view.pec s) [view.slave s, command]) (view.mem s) r.1 (view.mem r.2) ∧
      view.pec r.2 = view.pec s
  /-- S Addr Wr [A] Comm [A] Data [A] P -/
  write : ∀ s command size data, let r := k.access i2cSmbusWrite command size data s
    Sent dev calm (coded (view.pec s) (view.slave s :: command :: size.bytes data)) (view.mem s)
        r.1 (view.mem r.2.2) ∧ view.pec r.2.2 = view.pec s
  /-- S Addr Wr [A] Comm [A] Sr Addr Rd [A] [Data] NA P -/
  read : ∀ s command size data, let r := k.access i2cSmbusRead command size data s
    Fetched dev calm (view.slave s) command size.count (view.mem s) r.1 (size.bytes r.2.1)
        (view.mem r.2.2) ∧ view.pec r.2.2 = view.pec s
  /-- One message of `I2C_RDWR` that writes. -/
  message : ∀ s (addr : Word) len buf, let r := k.ioctl (.rdwr [⟨addr, 0, len, buf⟩]) s
    Sent dev calm (toByte (addr <<< 1) :: buf.take len) (view.mem s) r.1 (view.mem r.2) ∧
      view.pec r.2 = view.pec s
  /-- A command that is written, and a message that reads. -/
  receive : ∀ s address command,
    let r := k.ioctl (.rdwr (I2cdev.receiveMessages address command)) s
    Fetched dev calm (address &&& 0xFE) command I2cdev.receiveLen (view.mem s) r.1
        (k.received r.2) (view.mem r.2) ∧ view.pec r.2 = view.pec s

end

/-! ## Calls of the device -/

section

variable {D : Type} {dev : BusDevice D} {calm : Prop} {m m' : D} {r : IoctlResult}
  {frame bytes data : List Byte} {command : Byte} {f : Format} {n : Nat}

/-- Every frame comes back. -/
theorem Sent.not_interrupted (h : Sent dev calm frame m r m') : ¬ r.Interrupted := by
  cases h with
  | taken ret _ => exact I2cdev.not_interrupted_of_nonneg ret
  | broken _ done _ _ => exact done

theorem Fetched.not_interrupted {a : Byte} (h : Fetched dev calm a command n m r bytes m') :
    ¬ r.Interrupted := by
  cases h with
  | got ret _ => exact I2cdev.not_interrupted_of_nonneg ret
  | broken _ done _ _ => exact done

/-- The frame of a command is a call of the device. -/
theorem Sent.called (on : Bool) (hcmd : dev.format command = some f) (hfits : f.Fits data)
    (h : Sent dev calm (coded on (dev.addr :: command :: f.encode data)) m r m') :
    Called dev.object (.write command data) m (outcome r.ret []) m' ∧
      (calm → 0 ≤ r.ret) := by
  obtain ⟨tail, htail, hframe⟩ := BusDevice.coded_tail dev on command (f.encode data)
  rw [hframe] at h
  cases h with
  | taken ret _ =>
      rw [BusDevice.stop_whole hcmd hfits htail, outcome, if_neg (Int.not_lt.mpr ret)]
      exact ⟨.returned, fun _ => ret⟩
  | broken ret _ left refused =>
      rw [outcome, if_pos ret]
      refine ⟨?_, fun hcalm => absurd (refused hcalm) (BusDevice.takeAll_whole hcmd hfits htail)⟩
      rcases left.write hcmd hfits htail with hmem | hmem <;> rw [hmem]
      · exact .missed
      · exact .unseen

/-- A frame to another address is not taken. -/
theorem Sent.elsewhere {a : Byte} {bs : List Byte} (ha : a ≠ dev.addr)
    (h : Sent dev calm (a :: bs) m r m') : r.ret < 0 ∧ m' = m := by
  cases h with
  | taken _ goes =>
      rw [BusDevice.takeAll_elsewhere ha] at goes
      exact absurd rfl goes
  | broken ret _ left _ => exact ⟨ret, by rw [left.elsewhere ha]⟩

/-- A command of the device, addressed for reading. -/
theorem BusDevice.addressed_command (hcmd : dev.format command = some f) (m : D) :
    dev.addressed dev.addr command m =
      ⟨.sending (dev.reply command f m), (dev.read command m).2⟩ := by
  simp only [addressed, takeAll_cons, takeAll_nil, take, if_true, hcmd, see]

/-- A read of a command is a call of the device. -/
theorem Fetched.called (hcmd : dev.format command = some f) (hf : f ≠ .send)
    (h : Fetched dev calm dev.addr command n m r bytes m') :
    (r.ret < 0 ∧ Called dev.object (.read command) m none m' ∨
      0 ≤ r.ret ∧ bytes = Mem.read (dev.replyStream command f m) 0 n ∧
        m' = (dev.read command m).2) ∧ (calm → 0 ≤ r.ret) := by
  have haddressed := BusDevice.addressed_command hcmd m
  cases h with
  | got ret sends =>
      rw [haddressed, Slave.mk.injEq, Phase.sending.injEq] at sends
      obtain ⟨rfl, rfl⟩ := sends
      refine ⟨.inr ⟨ret, ?_, rfl⟩, fun _ => ret⟩
      rw [Mem.read]
      simp only [Nat.zero_add]
      rfl
  | broken ret _ left refused =>
      refine ⟨.inl ⟨ret, ?_⟩, fun hcalm => ?_⟩
      · rcases left with ⟨σ, hbroken, rfl⟩ | rfl
        · rw [hbroken.addressed hcmd hf]
          exact .missed
        · rw [haddressed]
          exact .unseen
      · have hidle := refused hcalm
        rw [haddressed] at hidle
        exact Phase.noConfusion hidle

theorem BusDevice.addressed_elsewhere {a : Byte} (ha : a ≠ dev.addr) (command : Byte) (m : D) :
    dev.addressed a command m = ⟨.idle, m⟩ := by
  rw [addressed, takeAll_elsewhere ha]
  rfl

theorem Fetched.elsewhere {a : Byte} (ha : a ≠ dev.addr)
    (h : Fetched dev calm a command n m r bytes m') : r.ret < 0 ∧ m' = m := by
  cases h with
  | got _ sends =>
      rw [BusDevice.addressed_elsewhere ha] at sends
      cases sends
  | broken ret _ left _ =>
      refine ⟨ret, ?_⟩
      rcases left with ⟨σ, hbroken, rfl⟩ | rfl
      · rw [hbroken.elsewhere ha]
      · rw [BusDevice.addressed_elsewhere ha]

/-! ## Addresses -/

theorem getLsbD_wire (address : UInt) {i : Nat} (hi : i < 8) :
    (wire address).getLsbD i = (decide (1 ≤ i) && address.getLsbD i) := by
  have hmask : (0xFE : Byte).getLsbD i = decide (1 ≤ i) := by
    interval_cases i <;> rfl
  rw [wire, BitVec.getLsbD_and, hmask, BitVec.getLsbD_setWidth, decide_eq_true hi, Bool.true_and,
    Bool.and_comm]

/-- The kernel gets an address without its direction bit, and shifts it back. -/
theorem wire_slave (address : UInt) :
    toByte (((address.setWidth 16 : Word) >>> 1) <<< 1) = wire address := by
  apply BitVec.eq_of_getLsbD_eq
  intro i hi
  rw [getLsbD_wire address hi]
  cases i with
  | zero => simp [toByte]
  | succ i =>
      have h₁ : i + 1 < 16 := by omega
      have h₂ : i < 16 := by omega
      simp [toByte, Nat.add_comm 1 i, hi, h₁, h₂]

/-- So does a message for an address that was cut to a byte. -/
theorem wire_message (address : UInt) :
    toByte ((((address.setWidth 8 : Byte) >>> 1).setWidth 16 : Word) <<< 1) = wire address := by
  apply BitVec.eq_of_getLsbD_eq
  intro i hi
  rw [getLsbD_wire address hi]
  cases i with
  | zero => simp [toByte]
  | succ i =>
      have h₁ : i < 16 := by omega
      have h₂ : i + 1 < 16 := by omega
      simp [toByte, Nat.add_comm 1 i, hi, h₁, h₂]

/-- An even address is not changed. -/
theorem wire_even {address : UInt} (heven : address.getLsbD 0 = false) :
    wire address = address.setWidth 8 := by
  apply BitVec.eq_of_getLsbD_eq
  intro i hi
  rw [getLsbD_wire address hi, BitVec.getLsbD_setWidth, decide_eq_true hi, Bool.true_and]
  cases i with
  | zero => rw [heven, Bool.and_false]
  | succ i => simp

end

/-! ## An adapter to try -/

/-- A bus with nothing but a device, and what the driver has selected. -/
structure BusFile (D : Type) where
  mem : D
  slave : Byte
  pec : Bool
  received : List Byte

namespace BusFile

variable {D : Type}

/-- The device, behind the file. -/
def view (D : Type) : FileView (BusFile D) D := ⟨mem, slave, pec⟩

/-- A frame. -/
def put (dev : BusDevice D) (frame : List Byte) (b : BusFile D) : IoctlResult × BusFile D :=
  if (dev.takeAll frame ⟨.begun, b.mem⟩).phase = .idle then (⟨-1, 6⟩, b)
  else (⟨0, 0⟩, { b with mem := (dev.stop (dev.takeAll frame ⟨.begun, b.mem⟩)).mem })

/-- A command, and `n` bytes that are read. -/
def get (dev : BusDevice D) (a command : Byte) (n : Nat) (b : BusFile D) :
    IoctlResult × List Byte × BusFile D :=
  match dev.addressed a command b.mem with
  | ⟨.sending bs, m⟩ => (⟨0, 0⟩, (List.range n).map (fun i => bs.getD i 0xFF), { b with mem := m })
  | _ => (⟨-1, 6⟩, List.replicate n 0, b)

/-- A data block with these bytes. -/
def block (bytes : List Byte) : Word := bytes.getD 1 0 ++ bytes.getD 0 0

/-- The adapter. -/
def adapter (dev : BusDevice D) : DataAdapter (BusFile D) where
  ioctl req b :=
    match req with
    | .slave a => if a ≤ 0x7F then (⟨0, 0⟩, { b with slave := toByte (a <<< 1) }) else (⟨-1, 22⟩, b)
    | .pec on => (⟨0, 0⟩, { b with pec := on })
    | .smbus _ _ .quick => put dev [b.slave] b
    | .smbus _ command .byte => put dev (coded b.pec [b.slave, command]) b
    | .rdwr [⟨addr, _, len, buf⟩] => put dev (toByte (addr <<< 1) :: buf.take len) b
    | .rdwr [⟨addr, _, _, [command]⟩, ⟨_, _, n, _⟩] =>
        let (r, bytes, b) := get dev (toByte (addr <<< 1)) command n b
        (r, { b with received := bytes })
    | .rdwr _ => (⟨-1, 22⟩, b)
  received := received
  access readWrite command size data b :=
    if readWrite = i2cSmbusRead then
      let (r, bytes, b) := get dev b.slave command size.count b
      (r, block bytes, b)
    else
      let (r, b) := put dev (coded b.pec (b.slave :: command :: size.bytes data)) b
      (r, data, b)

variable (dev : BusDevice D)

theorem put_sent (frame : List Byte) (b : BusFile D) :
    Sent dev True frame b.mem (put dev frame b).1 (put dev frame b).2.mem ∧
      (put dev frame b).2.pec = b.pec := by
  rw [put]
  split
  · rename_i hidle
    exact ⟨.broken (show (-1 : Int) < 0 by decide)
      (show ¬ IoctlResult.Interrupted ⟨-1, 6⟩ by decide)
      ⟨[], List.nil_prefix, .inl rfl⟩ fun _ => hidle, rfl⟩
  · rename_i hidle
    exact ⟨.taken (Int.le_refl 0) hidle, rfl⟩

/-- A device that is addressed for reading sends, or takes no part. -/
theorem addressed_cases (a command : Byte) (m : D) :
    (∃ bs m', dev.addressed a command m = ⟨.sending bs, m'⟩) ∨
      (dev.addressed a command m).phase = .idle := by
  rw [BusDevice.addressed]
  generalize dev.takeAll [a, command] ⟨.begun, m⟩ = σ
  obtain ⟨phase, m⟩ := σ
  cases phase with
  | writing cmd f bs =>
      cases bs with
      | nil =>
          simp only [BusDevice.see, BusDevice.take]
          split
          · exact .inl ⟨_, _, rfl⟩
          · exact .inr rfl
      | cons b bs => exact .inr rfl
  | idle => exact .inr rfl
  | begun => exact .inr rfl
  | addressed => exact .inr rfl
  | checked cmd f bs => exact .inr rfl
  | restarted cmd f => exact .inr rfl
  | sending bs => exact .inr rfl

theorem get_fetched (a command : Byte) (n : Nat) (b : BusFile D) :
    Fetched dev True a command n b.mem (get dev a command n b).1 (get dev a command n b).2.1
        (get dev a command n b).2.2.mem ∧
      (get dev a command n b).2.2.pec = b.pec ∧ (get dev a command n b).2.1.length = n := by
  rw [get]
  rcases addressed_cases dev a command b.mem with ⟨bs, m', hsends⟩ | hidle
  · rw [hsends]
    exact ⟨.got (Int.le_refl 0) hsends, rfl, by rw [List.length_map, List.length_range]⟩
  · have hσ : dev.addressed a command b.mem = ⟨.idle, (dev.addressed a command b.mem).mem⟩ := by
      rw [← hidle]
    rw [hσ]
    exact ⟨.broken (show (-1 : Int) < 0 by decide)
      (show ¬ IoctlResult.Interrupted ⟨-1, 6⟩ by decide)
      (.inl ⟨_, ⟨[], List.nil_prefix, .inl rfl⟩, rfl⟩) fun _ => hidle, rfl,
      List.length_replicate⟩

/-- The block that is read has these bytes. -/
theorem bytes_block (size : DataSize) {bytes : List Byte} (hlen : bytes.length = size.count) :
    size.bytes (block bytes) = bytes := by
  cases size with
  | byteData =>
      obtain ⟨b, rfl⟩ := List.length_eq_one_iff.mp hlen
      exact congrArg (fun b => [b]) (BitVec.setWidth_append_eq_right)
  | wordData =>
      obtain ⟨lo, hi, rfl⟩ := List.length_eq_two.mp hlen
      have hlow : ((hi ++ lo : Word).setWidth 32).setWidth 8 = lo := by
        rw [BitVec.setWidth_setWidth_of_le _ (by decide), BitVec.setWidth_append_eq_right]
      have hhigh : (((hi ++ lo : Word).setWidth 32) >>> 8).setWidth 8 = hi := by
        apply BitVec.eq_of_getLsbD_eq
        intro i hi'
        simp only [BitVec.getLsbD_setWidth, BitVec.getLsbD_ushiftRight, BitVec.getLsbD_append]
        simp [hi', show 8 + i < 32 by omega]
      change [((hi ++ lo : Word).setWidth 32).setWidth 8,
        (((hi ++ lo : Word).setWidth 32) >>> 8).setWidth 8] = [lo, hi]
      rw [hlow, hhigh]

/-- It reaches the device, and nothing gets in its way. -/
theorem serves : (adapter dev).Serves dev True (view D) where
  slave b a := by
    simp only [adapter]
    split
    · exact ⟨show ¬ IoctlResult.Interrupted ⟨0, 0⟩ by decide, rfl, rfl, .inr ⟨rfl, rfl⟩,
        fun _ _ => rfl⟩
    · rename_i hhigh
      exact ⟨show ¬ IoctlResult.Interrupted ⟨-1, 22⟩ by decide, rfl, rfl,
        .inl (show (-1 : Int) < 0 by decide), fun _ hlow => absurd hlow hhigh⟩
  pec b on := ⟨rfl, rfl, rfl⟩
  quick b := put_sent dev [b.slave] b
  byte b command := put_sent dev (coded b.pec [b.slave, command]) b
  write b command size data := put_sent dev (coded b.pec (b.slave :: command :: size.bytes data)) b
  read b command size data := by
    obtain ⟨hfetched, hpec, hlen⟩ := get_fetched dev b.slave command size.count b
    have hread : (adapter dev).access i2cSmbusRead command size data b =
        ((get dev b.slave command size.count b).1,
          block (get dev b.slave command size.count b).2.1,
          (get dev b.slave command size.count b).2.2) := rfl
    have hbytes := bytes_block size hlen
    simp only [hread, hbytes]
    exact ⟨hfetched, hpec⟩
  message b addr len buf := put_sent dev (toByte (addr <<< 1) :: buf.take len) b
  receive b address command := by
    obtain ⟨hfetched, hpec, -⟩ :=
      get_fetched dev (address &&& 0xFE) command I2cdev.receiveLen b
    have haddr : toByte (((address >>> 1).setWidth 16 : Word) <<< 1) = address &&& 0xFE := by
      have hcut := wire_message (address.setWidth 32)
      have hbyte : ((address.setWidth 32 : UInt).setWidth 8 : Byte) = address :=
        BitVec.setWidth_setWidth_of_le address (by decide)
      rwa [wire, hbyte] at hcut
    have hreceive : (adapter dev).ioctl (.rdwr (I2cdev.receiveMessages address command)) b =
        ((get dev (toByte (((address >>> 1).setWidth 16 : Word) <<< 1)) command
            I2cdev.receiveLen b).1,
          { (get dev (toByte (((address >>> 1).setWidth 16 : Word) <<< 1)) command
              I2cdev.receiveLen b).2.2 with
            received := (get dev (toByte (((address >>> 1).setWidth 16 : Word) <<< 1)) command
              I2cdev.receiveLen b).2.1 }) := rfl
    rw [hreceive, haddr]
    exact ⟨hfetched, hpec⟩

end BusFile

end Smbusb
