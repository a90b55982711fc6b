import Smbusb.Host.I2cdev
import Smbusb.Logic.Memory

/-!
# Blocks received by the I2CDEV driver

`I2CDEV_SMBReadBlock` asks for 65 bytes, the count and up to 64 behind it, and then copies as many
bytes to the caller as the count says.  It should give only what was received, and refuse a count
that is larger (`GivesReceived`).  What lies behind the bytes received is the cleared rest of a
buffer, so `givesReceived_iff` says that this is the case for the counts that fit.
-/

namespace Smbusb

open Logic

/-- An adapter that receives. -/
structure ReceivingAdapter (S : Type) extends Adapter S where
  /-- What an `I2C_RDWR` that succeeded has received. -/
  received : S → List Byte

namespace I2cdev

/-- `I2C_M_RD`. -/
def i2cMRd : Word := 1

/-- The length of the message that reads: the count, and the largest block it is meant for. -/
def receiveLen : Nat := 65

/-- The messages of `smbus_read_block_data_relax`. -/
def receiveMessages (address command : Byte) : List I2cMsg :=
  [⟨(address >>> 1).setWidth 16, 0, 1, [command]⟩,
    ⟨(address >>> 1).setWidth 16, i2cMRd, receiveLen, List.replicate 258 0⟩]

section

variable {S : Type} (k : ReceivingAdapter S)

/-- What is stored in `buffer`. -/
def stored (file : S) : List Byte := (k.received file).take receiveLen

/-- `buffer`, which was cleared. -/
def receiveBuffer (file : S) : Mem Byte := Mem.write (fun _ => 0) 0 (stored k file)

/-- `smbus_read_block_data_relax`. -/
def smbusReadBlockDataRelax (fuel : Nat) (address command : Byte) (values : Mem Byte)
    (c : I2cCtx S) : Option ((Int × Mem Byte) × I2cCtx S) := do
  let (sts, c) ← onFile k.toAdapter fuel (.rdwr (receiveMessages address command)) c
  if sts < 0 then return ((-1, values), c)
  let buffer := receiveBuffer k c.file
  let count := (buffer 0).toNat
  return ((count, values.write 0 (buffer.read 1 count)), c)

/-- `I2CDEV_SMBReadBlock`; `address` is cut to a byte. -/
def readBlock (fuel : Nat) (address : UInt) (command : Byte) (data : Mem Byte) (c : I2cCtx S) :
    Option ((Int × Mem Byte) × I2cCtx S) :=
  smbusReadBlockDataRelax k fuel (address.setWidth 8) command data c

/-! ## What is given to the caller -/

/-- The data bytes that were received behind the count. -/
def receivedData (file : S) : List Byte := (stored k file).drop 1

/-- The count that was received. -/
def receivedCount (file : S) : Nat := (receiveBuffer k file 0).toNat

/-- What is returned was received, and a count above that is an error. -/
structure GivesReceived (address : UInt) (command : Byte) (data : Mem Byte) (c : I2cCtx S) :
    Prop where
  received : ∀ fuel (n : Nat) data' c', readBlock k fuel address command data c =
    some (((n : Int), data'), c') →
    n ≤ (receivedData k c'.file).length ∧ data'.read 0 n = (receivedData k c'.file).take n
  refused : ∀ fuel n data' c', readBlock k fuel address command data c = some ((n, data'), c') →
    (receivedData k c'.file).length < receivedCount k c'.file → n < 0

/-- The transfer fails, or the count is not larger than what it receives. -/
def CountFits (address : UInt) (command : Byte) (c : I2cCtx S) : Prop :=
  ∀ fuel sts file, xioctl k.toAdapter fuel
      (.rdwr (receiveMessages (address.setWidth 8) command)) c.file = some (sts, file) →
    sts < 0 ∨ receivedCount k file ≤ (receivedData k file).length

variable {k} {address : UInt} {command : Byte} {data : Mem Byte} {c : I2cCtx S} {fuel : Nat}

variable (data) in
/-- What a call does when its transfer returns. -/
theorem readBlock_of_xioctl {sts : Int} {file : S}
    (h : xioctl k.toAdapter fuel (.rdwr (receiveMessages (address.setWidth 8) command)) c.file =
      some (sts, file)) :
    readBlock k fuel address command data c = some
      (if sts < 0 then (-1, data) else ((receivedCount k file : Int),
        data.write 0 ((receiveBuffer k file).read 1 (receivedCount k file))),
        { c with file := file }) := by
  rw [readBlock, smbusReadBlockDataRelax, onFile, h]
  simp only [Option.map_some, Option.bind_eq_bind, Option.bind_some]
  split
  · rfl
  · rfl

/-- A call that returns has made its transfer. -/
theorem xioctl_of_readBlock {r : (Int × Mem Byte) × I2cCtx S}
    (h : readBlock k fuel address command data c = some r) : ∃ sts file,
    xioctl k.toAdapter fuel (.rdwr (receiveMessages (address.setWidth 8) command)) c.file =
      some (sts, file) := by
  cases hrun : xioctl k.toAdapter fuel (.rdwr (receiveMessages (address.setWidth 8) command))
    c.file with
  | some r => exact ⟨r.1, r.2, rfl⟩
  | none =>
      rw [readBlock, smbusReadBlockDataRelax, onFile, hrun] at h
      cases h

/-- A call that returns a count has received it. -/
theorem received_of_readBlock {n : Nat} {data' : Mem Byte} {c' : I2cCtx S}
    (h : readBlock k fuel address command data c = some (((n : Int), data'), c')) :
    ∃ sts file, xioctl k.toAdapter fuel (.rdwr (receiveMessages (address.setWidth 8) command))
        c.file = some (sts, file) ∧
      ¬ sts < 0 ∧ n = receivedCount k file ∧ c'.file = file ∧
      data' = data.write 0 ((receiveBuffer k file).read 1 (receivedCount k file)) := by
  obtain ⟨sts, file, hrun⟩ := xioctl_of_readBlock h
  have hresult := Option.some.inj (h.symm.trans (readBlock_of_xioctl data hrun))
  split at hresult
  · simp only [Prod.mk.injEq] at hresult
    omega
  · next hnonneg =>
    simp only [Prod.mk.injEq] at hresult
    obtain ⟨⟨hn, rfl⟩, rfl⟩ := hresult
    exact ⟨sts, file, hrun, hnonneg, by exact_mod_cast hn, rfl, rfl⟩

/-- The bytes behind the count, as far as they were received. -/
theorem read_receiveBuffer {file : S} {n : Nat} (h : n ≤ (receivedData k file).length) :
    (receiveBuffer k file).read 1 n = (receivedData k file).take n := by
  by_cases hn : n = 0
  · rw [hn, Mem.read_zero, List.take_zero]
  · rw [receivedData, List.length_drop] at h
    have hpart := Mem.read_write_part (fun _ => (0 : Byte)) 0 (l := stored k file) (i := 1) (n := n)
      (by omega)
    rwa [Nat.zero_add] at hpart

end

/-- The driver gives what was received exactly when the transfer fails or the count fits. -/
theorem givesReceived_iff {S : Type} (k : ReceivingAdapter S) (address : UInt) (command : Byte)
    (data : Mem Byte) (c : I2cCtx S) :
    GivesReceived k address command data c ↔ CountFits k address command c := by
  constructor
  · intro hgives fuel sts file hrun
    by_contra hno
    rw [not_or, Int.not_lt] at hno
    have hread := readBlock_of_xioctl data hrun
    rw [if_neg (Int.not_lt.mpr hno.1)] at hread
    exact hno.2 (hgives.received _ _ _ _ hread).1
  · intro hfits
    constructor
    · intro fuel n data' c' hread
      obtain ⟨sts, file, hrun, hnonneg, rfl, rfl, rfl⟩ := received_of_readBlock hread
      have hle := (hfits fuel sts _ hrun).resolve_left hnonneg
      refine ⟨hle, ?_⟩
      have hback := Mem.read_write data 0
        ((receiveBuffer k c'.file).read 1 (receivedCount k c'.file))
      rw [Mem.length_read] at hback
      rw [hback]
      exact read_receiveBuffer hle
    · intro fuel n data' c' hread hlarger
      by_contra hn
      obtain ⟨m, rfl⟩ := Int.eq_ofNat_of_zero_le (Int.not_lt.mp hn)
      obtain ⟨sts, file, hrun, hnonneg, -, rfl, -⟩ := received_of_readBlock hread
      exact absurd ((hfits fuel sts _ hrun).resolve_left hnonneg) (Nat.not_le.mpr hlarger)

/-- A target that sends its count, and `0xAA` for ever. -/
def repeatingTarget (count : Byte) : ReceivingAdapter Unit where
  ioctl _ _ := (⟨2, 0⟩, ())
  received _ := count :: List.replicate 64 0xAA

/-- Of a block of 65 bytes the last is a 0 that nobody sent. -/
theorem not_givesReceived_long :
    ¬ GivesReceived (repeatingTarget 65) 0x16 0x20 (fun _ => 0) ⟨false, false, ()⟩ := by
  intro h
  have hread := h.received 1 65 _ _ rfl
  exact absurd hread.1 (by decide)

end I2cdev

end Smbusb
