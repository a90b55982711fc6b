import Smbusb.Firmware.ReadBlock
import Smbusb.Firmware.TransactionRead
import Smbusb.Firmware.WriteBlock

/-!
# The arrays of the firmware

Which requests keep `Fx2.InBounds`: no access past the end of `temp` or `EP0BUF`, and
cursors that leave the next request no way to make one.

`READ_BLOCK` does, with any target: it refuses the counts that would not fit.  `READ`
and `WRITE` do when the host asks for at most 64 bytes, which fill `EP0BUF`.
`WRITE_BLOCK` trusts the count byte.  When it opens a block it does so exactly for the
counts `BlockFits` allows; inside a sequence it relies on the count it was opened with.
-/

namespace Smbusb

open Logic Prog Fw Handler

/-- The accesses and the cursors are those of before. -/
structure Fx2.SameBounds (s s' : Fx2) : Prop where
  oob : s'.oob = s.oob
  templen : s'.templen = s.templen
  tempptr : s'.tempptr = s.tempptr

theorem Fx2.SameBounds.inBounds {s s' : Fx2} (h : s.SameBounds s') (hs : s.InBounds) :
    s'.InBounds := by
  refine ⟨?_, ?_, h.oob.trans hs.oob⟩
  · rw [h.tempptr, h.templen]
    exact hs.ptr
  · rw [h.templen]
    exact hs.len

section

variable (T : Target) (fuel : Nat) (smbAddr smbCmd : Word)

/-! ## Arbitrary transactions -/

/-- `WRITE` reads as many bytes as it is told. -/
theorem write_inBounds (hfuel : 65 ≤ fuel) (hlen : smbAddr.toNat ≤ 64) {s : Fx2}
    (hs : s.InBounds) :
    ∃ ok s', Handler.write T fuel smbAddr smbCmd s = .ok ok s' ∧ s'.InBounds := by
  obtain ⟨b, hrun, -, -⟩ := write_run T fuel smbAddr smbCmd hfuel hlen s
  exact ⟨_, _, hrun, ⟨hs.ptr, hs.len, hs.oob⟩⟩

theorem hasFlag_clearFirst (rs : Byte) :
    hasFlag (rs &&& ~~~readCmdFirstRead) readCmdLastRead = hasFlag rs readCmdLastRead := by
  simp only [hasFlag, BitVec.and_assoc]
  rfl

/-- One turn of `READ`: what is not stored is the PEC, one turn behind the bytes. -/
theorem readTurn_bounds (i j rs : Byte) (s : Fx2)
    (hin : i.toNat < 64 ∨ s.pecEnabled = true ∧ hasFlag rs readCmdLastRead = true ∧
      i.toNat + 1 = j.toNat) :
    wp (readTurn T j (i, rs)) (fun v s' => v = (i + 1, rs &&& ~~~readCmdFirstRead) ∧
      s'.pecEnabled = s.pecEnabled ∧ s.SameBounds s') (fun _ _ => False) s := by
  have hstore : i.toNat < 64 → (s.oob || decide (ep0Size ≤ i.toNat)) = s.oob := by
    intro h
    have : ¬ ep0Size ≤ i.toNat := by simpa [ep0Size] using h
    simp [this]
  simp only [readTurn, wp_bind, wp_i2c, wp_get, wp_ite, wp_modify, wp_setEp0buf, wp_pure]
  split
  · next hon =>
    split
    · exact ⟨trivial, trivial, rfl, rfl, rfl⟩
    · next hlast =>
      refine ⟨trivial, trivial, hstore (hin.resolve_right ?_), rfl, rfl⟩
      rintro ⟨-, hflag, hend⟩
      simp [hflag, hend] at hlast
  · next hoff => exact ⟨trivial, trivial, hstore (hin.resolve_right fun h => hoff h.1), rfl, rfl⟩

/-- `READ` stores as many bytes as it is told. -/
theorem read_inBounds (hfuel : 66 ≤ fuel) (hlen : smbAddr.toNat ≤ 64) {s : Fx2}
    (hs : s.InBounds) :
    ∃ ok s', Handler.read T fuel smbAddr smbCmd s = .ok ok s' ∧ s'.InBounds := by
  have h : wp (Handler.read T fuel smbAddr smbCmd) (fun _ s' => s.SameBounds s')
      (fun _ _ => False) s := by
    simp only [Handler.read, wp_bind, wp_get]
    generalize hj : (if s.pecEnabled = true ∧ hasFlag (toByte smbCmd) readCmdLastRead = true then
      toByte smbAddr + 1 else toByte smbAddr) = j
    have hn : (toByte smbAddr).toNat = smbAddr.toNat := by
      simp [toByte]
      omega
    have hturns : j.toNat ≤ 64 ∨ s.pecEnabled = true ∧
        hasFlag (toByte smbCmd) readCmdLastRead = true ∧ j.toNat = 65 := by
      rw [← hj]
      split
      · next hpec =>
        rw [toNat_succ (by omega), hn]
        by_cases h64 : smbAddr.toNat = 64
        · exact .inr ⟨hpec.1, hpec.2, by omega⟩
        · exact .inl (by omega)
      · exact .inl (by omega)
    -- The LAST flag and the PEC setting are what they were at the first turn.
    refine wp_whileLoop (fun k v t => v.1.toNat = k ∧
      hasFlag v.2 readCmdLastRead = hasFlag (toByte smbCmd) readCmdLastRead ∧
      t.pecEnabled = s.pecEnabled ∧ s.SameBounds t) j.toNat ?_ ?_ (by omega)
      ⟨rfl, rfl, rfl, rfl, rfl, rfl⟩
    · rintro k hk ⟨i, rs⟩ t ⟨rfl, hflag, hpec, ht⟩
      refine ⟨by simpa [BitVec.lt_def] using hk, ?_⟩
      refine wp_mono (readTurn_bounds T i j rs t ?_) ?_ (fun _ _ h => h.elim)
      · rw [hflag, hpec]
        rcases hturns with h64 | ⟨hon, hlast, h65⟩
        · exact .inl (by simp only at hk; omega)
        · by_cases hi : i.toNat < 64
          · exact .inl hi
          · exact .inr ⟨hon, hlast, by simp only at hk; omega⟩
      · rintro v t' ⟨rfl, hpec', ht'⟩
        refine ⟨toNat_succ (by have := j.isLt; simp only at hk ⊢; omega), ?_, hpec'.trans hpec,
          ht'.oob.trans ht.oob, ht'.templen.trans ht.templen, ht'.tempptr.trans ht.tempptr⟩
        rw [hasFlag_clearFirst]
        exact hflag
    · rintro ⟨i, rs⟩ t ⟨hi, -, -, ht⟩
      simp only at hi
      refine ⟨by simp [BitVec.lt_def, hi], ?_⟩
      rw [wp_setEp0bcl, wp_pure]
      exact ⟨ht.oob, ht.templen, ht.tempptr⟩
  obtain ⟨ok, s', hrun, hsame⟩ := exists_run_of_wp h
  exact ⟨ok, s', hrun, hsame.inBounds hs⟩

/-! ## Block writes -/

/-- A `WRITE_BLOCK` request that finds no live sequence has a count that fits: not 64, for
which it would read one byte behind `EP0BUF`, and not more than `temp` holds. -/
def Fx2.BlockFits (s : Fx2) : Prop :=
  s.expire.templen = 0 → (s.ep0buf 0).toNat ≠ 64 ∧ (s.ep0buf 0).toNat ≤ tempSize

/-- A request that finds a sequence complete, because an earlier one could not send it,
stores nothing and sends it. -/
theorem writeBlock_sendsAgain (hfuel : 256 ≤ fuel) (s : Fx2) (hlive : s.count ≤ blockSeqTimeout)
    (hpos : 0 < s.templen.toNat) (hlen : s.templen.toNat < 256) (hptr : s.tempptr = s.templen) :
    let r := sendFrame T (blockFrame s.pecEnabled (toByte smbAddr) (toByte smbCmd)
      (toByte s.templen) (s.temp.read 0 s.templen.toNat)) s.toI2c
    ∃ o, (s.templen.toNat ≤ tempSize → o = s.oob) ∧ writeBlock T fuel smbAddr smbCmd s =
      .ok r.1 (if r.1 then { s with toI2c := r.2, oob := o, tempptr := 0, templen := 0 }
        else { s with toI2c := r.2, oob := o }) := by
  intro r
  have hlt : 0 < s.templen := by
    rw [BitVec.lt_def]
    exact hpos
  have hne : s.templen ≠ 0 := by
    rintro h
    rw [h] at hpos
    exact Nat.lt_irrefl 0 hpos
  have hstore : writeBlockStore fuel s = .ok () s := by
    have hnot : ¬ s.tempptr < s.templen := by simp [hptr]
    have h : wp (writeBlockStore fuel) (fun _ s' => s' = s) (fun _ _ => False) s := by
      simp only [writeBlockStore, wp_bind, wp_get]
      rw [wp_ite, if_neg hnot]
      rfl
    obtain ⟨_, s', hrun, rfl⟩ := exists_run_of_wp h
    exact hrun
  obtain ⟨o, -, hin, hsend⟩ := writeBlockSendTemp_run T fuel smbAddr smbCmd hfuel s hlen
  refine ⟨o, hin, ?_⟩
  rw [writeBlock_eq, Fx2.expire_of_live hlive, if_neg (fun h => hne h.1), if_pos hlt]
  simp only [bind, EStateM.bind, hstore, get, getThe, MonadStateOf.get, EStateM.get]
  rw [if_pos hptr]
  exact hsend

/-- `WRITE_BLOCK`, with any target and whatever the chunk holds behind the count. -/
theorem writeBlock_inBounds (hfuel : 256 ≤ fuel) {s : Fx2} (hs : s.InBounds) (hfits : s.BlockFits) :
    ∃ ok s', writeBlock T fuel smbAddr smbCmd s = .ok ok s' ∧ s'.InBounds := by
  have hexp := hs.expire
  have htemp : tempSize = 192 := rfl
  by_cases hidle : s.expire.templen = 0
  · obtain ⟨h64, hcount⟩ := hfits hidle
    rcases Nat.lt_or_ge 64 (s.ep0buf 0).toNat with hbig | hsmall
    · refine ⟨_, _, writeBlock_opens T fuel smbAddr smbCmd hfuel s hidle hbig, ?_, ?_, hs.oob⟩
      · simp
        omega
      · simp
        omega
    · obtain ⟨o, -, ho, hrun⟩ := writeBlock_sends T fuel smbAddr smbCmd hfuel s hidle hsmall
      exact ⟨_, _, hrun, hexp.ptr, hexp.len, (ho (by omega)).trans hs.oob⟩
  · have hlive := Fx2.live_of_expire hidle
    rw [Fx2.expire_of_live hlive] at hidle
    have hptr := hs.ptr
    have hlen := hs.len
    have hpos : 0 < s.templen.toNat := by
      have := BitVec.toNat_ne.mp hidle
      simp at this
      omega
    rcases Nat.eq_or_lt_of_le hptr with heq | hlt
    · obtain ⟨o, ho, hrun⟩ := writeBlock_sendsAgain T fuel smbAddr smbCmd hfuel s hlive hpos
        (by omega) (BitVec.eq_of_toNat_eq heq)
      refine ⟨_, _, hrun, ?_⟩
      split
      · exact ⟨Nat.le_refl _, Nat.zero_le _, (ho hlen).trans hs.oob⟩
      · exact ⟨hptr, hlen, (ho hlen).trans hs.oob⟩
    · rcases Nat.lt_or_ge (s.tempptr.toNat + 64) s.templen.toNat with hmore | hlast
      · refine ⟨_, _, writeBlock_stores T fuel smbAddr smbCmd hfuel s hlive (by omega) hmore,
          ?_, hlen, ?_⟩
        · simp
          omega
        · have : ¬ tempSize < s.tempptr.toNat + 64 := by omega
          simp [hs.oob, this]
      · have hoob : (s.oob || decide (tempSize < s.templen.toNat)) = false := by
          have : ¬ tempSize < s.templen.toNat := by omega
          simp [hs.oob, this]
        refine ⟨_, _, writeBlock_completes T fuel smbAddr smbCmd hfuel s hlive (by omega) hlt hlast,
          ?_⟩
        split
        · exact ⟨Nat.le_refl _, Nat.zero_le _, hoob⟩
        · exact ⟨Nat.le_refl _, hlen, hoob⟩

end

/-! ## The requests of the block and transaction functions -/

/-- The requests of the block and transaction functions of the host.  An arbitrary
transaction is cut into requests for at most 64 bytes. -/
def Issued (cmd : Byte) (setup : Setup) : Prop :=
  cmd = smbReadBlock ∨ cmd = smbWriteBlock ∨
    (cmd = smbWrite ∨ cmd = smbRead) ∧ setup.value.toNat ≤ 64

/-- One request. -/
theorem handleVendorcommand_inBounds (T : Target) {fuel : Nat} (hfuel : 256 ≤ fuel) {cmd : Byte}
    {setup : Setup} (hcmd : Issued cmd setup) {s : Fx2} (hs : s.InBounds)
    (hfits : cmd = smbWriteBlock → s.BlockFits) :
    ∃ ok s', handleVendorcommand T fuel cmd setup s = .ok ok s' ∧ s'.InBounds := by
  rcases hcmd with rfl | rfl | ⟨rfl | rfl, hlen⟩
  · obtain ⟨ok, s', -, hrun, hin, -⟩ := readBlock_any T fuel setup.value setup.index hfuel s hs
    exact ⟨ok, s', hrun, hin⟩
  · exact writeBlock_inBounds T fuel setup.value setup.index hfuel hs (hfits rfl)
  · exact write_inBounds T fuel setup.value setup.index (by omega) hlen hs
  · exact read_inBounds T fuel setup.value setup.index (by omega) hlen hs

end Smbusb
