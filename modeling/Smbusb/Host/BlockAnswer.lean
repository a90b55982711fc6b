import Smbusb.Host.BlockReceive
import Smbusb.Host.Fx2lp

/-!
# What SMBReadBlock gives

A call of `SMBReadBlock` gives a status and stores bytes, and the two are not the same thing.  A
read of the FX2LP driver that fails at a later transfer has stored the bytes of the ones before, and
one that succeeds stores every transfer whole, past the count.  The only promise is that no fewer
bytes are stored than are returned.

`BlockAnswer` is such a pair, and what either driver does is one (`Fx2lp.readBlock_answered`,
`I2cdev.readBlock_answered`).
-/

namespace Smbusb

open Logic

/-- What `SMBReadBlock` returns, and what it stores from the start of `data` on. -/
structure BlockAnswer where
  status : Int
  data : List Byte
  /-- No more bytes are returned than were stored. -/
  enough : status ≤ data.length
deriving DecidableEq, Repr

namespace BlockAnswer

/-- The read fails with the status `-(e+1)`, and stores nothing. -/
def failed (e : Nat) : BlockAnswer :=
  ⟨Int.negSucc e, [], Int.le_of_lt (Int.negSucc_lt_zero e)⟩

/-- The block is returned, and nothing else is stored. -/
def read (data : List Byte) : BlockAnswer := ⟨data.length, data, Int.le_refl _⟩

/-- The block is returned: it is what was stored first. -/
def Gives (r : BlockAnswer) (data : List Byte) : Prop := r.status = data.length ∧ data <+: r.data

/-- The call has this status, and has stored these bytes in `data`. -/
def Answers (r : BlockAnswer) (status : Int) (data data' : Mem Byte) : Prop :=
  r.status = status ∧ data' = data.write 0 r.data

variable {r : BlockAnswer} {data : List Byte} {n : Nat}

theorem failed_status (e n : Nat) : (failed e).status ≠ n := Int.noConfusion

theorem gives_read (data : List Byte) : (read data).Gives data := ⟨rfl, List.prefix_refl data⟩

theorem Gives.take (h : r.Gives data) : r.data.take data.length = data :=
  (List.prefix_iff_eq_take.mp h.2).symm

/-- A status that is a length says how many of the bytes are the block. -/
theorem length_take (h : r.status = n) : (r.data.take n).length = n := by
  have henough := r.enough
  rw [List.length_take]
  omega

theorem gives_take (h : r.status = n) : r.Gives (r.data.take n) :=
  ⟨by rw [length_take h, h], List.take_prefix n r.data⟩

end BlockAnswer

/-! ## The FX2LP driver -/

/-- The status of an IN transfer counts bytes that came. -/
def Device.Counts {S : Type} (d : Device S) : Prop :=
  ∀ cmd setup length s, (d.inp cmd setup length s).1.1 ≤ (d.inp cmd setup length s).1.2.length

/-- The firmware is such a device. -/
theorem usb_counts (T : Target) (way : Nat → Delivery) : (usb T way).Counts := by
  intro cmd setup length l
  cases hfate : (way l.sent).fate with
  | delivered =>
      simp only [usb, hfate]
      split
      · exact Int.le_refl _
      · decide
  | lost e =>
      simp only [usb, hfate]
      exact Int.le_of_lt (Int.negSucc_lt_zero e)
  | unacked e =>
      simp only [usb, hfate]
      exact Int.le_of_lt (Int.negSucc_lt_zero e)

namespace Fx2lp

variable {S : Type} {d : Device S}

/-- The loop stores behind what was stored before it. -/
theorem readBlockRest_answered (hd : d.Counts) (setup : Setup) {total fuel : Nat}
    {data : Mem Byte} {l : List Byte} {s : S} {status : Int} {data' : Mem Byte}
    (h : (readBlockRest d setup total fuel l.length (data.write 0 l) s).1 =
      some (status, data')) : ∃ r : BlockAnswer, r.Answers status data data' := by
  induction fuel generalizing l s with
  | zero => exact absurd h.symm (Option.some_ne_none _)
  | succ fuel ih =>
      rw [readBlockRest] at h
      split at h
      · have hcount := hd smbReadBlock setup 64 s
        revert h hcount
        rcases d.inp smbReadBlock setup 64 s with ⟨⟨got, tmp⟩, s'⟩
        intro h hcount
        dsimp only at h hcount
        split at h
        · next hfail =>
          -- What came before the failure stays stored.
          obtain ⟨rfl, rfl⟩ := Prod.mk.inj (Option.some.inj h)
          exact ⟨⟨got, l, by omega⟩, rfl, rfl⟩
        · next hgot =>
          have hlen : l.length + got.toNat = (l ++ tmp.take got.toNat).length := by
            rw [List.length_append, List.length_take]
            omega
          have hwrite : (data.write 0 l).write l.length (tmp.take got.toNat) =
              data.write 0 (l ++ tmp.take got.toNat) := by
            rw [← Mem.write_append, Nat.zero_add]
          rw [hlen, hwrite] at h
          exact ih h
      · next hall =>
        obtain ⟨rfl, rfl⟩ := Prod.mk.inj (Option.some.inj h)
        exact ⟨⟨total, l, by omega⟩, rfl, rfl⟩

/-- What `FX2LP_SMBReadBlock` returns and stores. -/
theorem readBlock_answered (hd : d.Counts) {fuel : Nat} {address : UInt} {command : Byte}
    {data data' : Mem Byte} {s : S} {status : Int}
    (h : (readBlock d fuel address command data s).1 = some (status, data')) :
    ∃ r : BlockAnswer, r.Answers status data data' := by
  rw [readBlock] at h
  have hcount := hd smbReadBlock (setupOf address command) 64 s
  revert h hcount
  rcases d.inp smbReadBlock (setupOf address command) 64 s with ⟨⟨got, tmp⟩, s'⟩
  intro h hcount
  dsimp only at h hcount
  split at h
  · next hfail =>
    obtain ⟨rfl, rfl⟩ := Prod.mk.inj (Option.some.inj h)
    exact ⟨⟨got, [], hfail⟩, rfl, (Mem.write_nil data 0).symm⟩
  · have hlen : ((tmp.drop 1).take (got.toNat - 1)).length = got.toNat - 1 := by
      rw [List.length_take, List.length_drop]
      omega
    generalize (tmp.drop 1).take (got.toNat - 1) = l at h hlen
    rw [← hlen] at h
    exact readBlockRest_answered hd _ h

end Fx2lp

/-! ## The I2CDEV driver -/

/-- What `I2CDEV_SMBReadBlock` returns and stores. -/
theorem I2cdev.readBlock_answered {S : Type} {k : ReceivingAdapter S} {fuel : Nat} {address : UInt}
    {command : Byte} {data data' : Mem Byte} {c c' : I2cCtx S} {status : Int}
    (h : I2cdev.readBlock k fuel address command data c = some ((status, data'), c')) :
    ∃ r : BlockAnswer, r.Answers status data data' := by
  obtain ⟨sts, file, hrun⟩ := I2cdev.xioctl_of_readBlock h
  have hresult := Option.some.inj (h.symm.trans (I2cdev.readBlock_of_xioctl data hrun))
  split at hresult
  · obtain ⟨⟨rfl, rfl⟩, -⟩ := Prod.mk.inj hresult |>.imp_left Prod.mk.inj
    exact ⟨.failed 0, rfl, (Mem.write_nil _ 0).symm⟩
  · obtain ⟨⟨rfl, rfl⟩, -⟩ := Prod.mk.inj hresult |>.imp_left Prod.mk.inj
    exact ⟨.read _, congrArg Nat.cast (Mem.length_read ..), rfl⟩

end Smbusb
