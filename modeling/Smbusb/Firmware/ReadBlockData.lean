import Smbusb.Firmware.ReadBlock

/-!
# The bytes of a block read

What a block read gets from a responsive target.  The target's bytes are a stream
`f`: the count `f 0`, the data, and the PEC.

*Storing.*  After `k` turns the first 64 of the bytes are in `EP0BUF` and the others
in `temp` (`Fx2.stored`).  The last turn stores nothing: its byte is the PEC.

*The loop.*  The first turn learns the count (`wp_readBlockTurn_first`), the turns
after it store their byte (`wp_readBlockTurn_middle`), and the last one keeps the PEC
apart (`wp_readBlockTurn_last`).  `readBlockData_run` puts them together for the
counts from 1 to 253; `readBlockData_bad` is the two counts the firmware refuses.
-/

namespace Smbusb

open Logic Prog Fw Handler

/-- The first `n` bytes of a stream. -/
def firstBytes (f : Nat → Byte) (n : Nat) : List Byte := (List.range n).map f

@[simp] theorem length_firstBytes (f : Nat → Byte) (n : Nat) : (firstBytes f n).length = n := by
  simp [firstBytes]

theorem firstBytes_succ (f : Nat → Byte) (n : Nat) :
    firstBytes f (n + 1) = firstBytes f n ++ [f n] := by
  simp [firstBytes, List.range_succ]

theorem take_firstBytes (f : Nat → Byte) (n k : Nat) :
    (firstBytes f n).take k = firstBytes f (min k n) := by
  rw [firstBytes, firstBytes, ← List.map_take, List.take_range]

theorem drop_firstBytes (f : Nat → Byte) (n k : Nat) :
    (firstBytes f n).drop k = firstBytes (fun j => f (k + j)) (n - k) := by
  have h := Mem.drop_read f 0 n k
  simpa [Mem.read, firstBytes] using h

/-- The state with the first `k` bytes of a stream stored. -/
def Fx2.stored (s : Fx2) (f : Nat → Byte) (k : Nat) (b : I2c) : Fx2 :=
  { s with
    toI2c := b
    ep0buf := s.ep0buf.write 0 (firstBytes f (min 64 k))
    temp := s.temp.write 0 (firstBytes (fun j => f (64 + j)) (k - 64)) }

/-- LASTRD is set in the turn before the last. -/
def blockBeforeLast (n k : Nat) : Bool := k + 2 == n + 2

/-- STOP is set in the last turn, the one for the PEC. -/
def blockLast (n k : Nat) : Bool := k + 1 == n + 2

section

variable {T : Target} {f : Nat → Byte} {tr : List Event} {b : I2c} {k n : Nat} {v : ReadVars}
  {s : Fx2} {Q : ReadVars → Fx2 → Prop} {E : Label → Fx2 → Prop}

/-- Storing one more byte. -/
theorem stored_succ_ep0buf (hk : k < 64) :
    { s.stored f k b with
      ep0buf := Function.update (s.stored f k b).ep0buf k (f k)
      oob := (s.stored f k b).oob || decide (ep0Size ≤ k) } = s.stored f (k + 1) b := by
  have hupd := Mem.update_write s.ep0buf 0 (firstBytes f k) (f k)
  rw [length_firstBytes, Nat.zero_add, ← firstBytes_succ] at hupd
  have h1 : min 64 k = k := by omega
  have h2 : min 64 (k + 1) = k + 1 := by omega
  have h3 : k - 64 = 0 := by omega
  have h4 : k + 1 - 64 = 0 := by omega
  have hin : ¬ ep0Size ≤ k := by simpa [ep0Size] using hk
  simp only [Fx2.stored, h1, h2, h3, h4, hupd, hin, decide_false, Bool.or_false]

theorem stored_succ_temp (hk : 64 ≤ k) (hlt : k < 64 + tempSize) :
    { s.stored f k b with
      temp := Function.update (s.stored f k b).temp (k - 64) (f k)
      oob := (s.stored f k b).oob || decide (tempSize ≤ k - 64) } = s.stored f (k + 1) b := by
  have hupd := Mem.update_write s.temp 0 (firstBytes (fun j => f (64 + j)) (k - 64)) (f k)
  have hk' : f k = f (64 + (k - 64)) := by rw [Nat.add_sub_cancel' hk]
  have hsucc : k + 1 - 64 = k - 64 + 1 := by omega
  rw [length_firstBytes, Nat.zero_add, hk', ← firstBytes_succ (fun j => f (64 + j)), ← hk',
    ← hsucc] at hupd
  have h1 : min 64 k = 64 := by omega
  have h2 : min 64 (k + 1) = 64 := by omega
  have hin : ¬ tempSize ≤ k - 64 := by omega
  simp only [Fx2.stored, h1, h2, hupd, hin, decide_false, Bool.or_false]

/-- A turn between the first and the last stores its byte. -/
theorem wp_readBlockTurn_middle (hT : Responsive T) (hi : v.i.toNat = k)
    (hL : v.blocklen.toNat = n + 2) (hpos : 0 < k) (hk : k < n + 1) (ha : Arrived f k tr b)
    (hrecv : (T.recv (tr ++ askEvents f (blockBeforeLast n k) k)).2 = f (k + 1))
    (hQ : ∀ b', Arrived f (k + 1)
        (tr ++ turnEvents f (blockBeforeLast n k) (blockLast n k) k) b' →
      Q { v with i := v.i + 1, pec := if s.pecEnabled then pecCrc v.pec (f k) else v.pec }
        (s.stored f (k + 1) b')) :
    wp (readBlockTurn T v) Q E (s.stored f k b) := by
  have hlt := v.blocklen.isLt
  have hne : ¬ v.i = 0 := by
    intro h
    rw [h] at hi
    simp at hi
    omega
  have hfirst : (v.i == 0) = false := by simpa using hne
  have hlast : blockLast n k = false := by simp [blockLast]; omega
  obtain ⟨b', hrun, hb'⟩ := i2cBytein_turn hT ha (blockBeforeLast n k) hrecv
  have hQ' := hQ b' (by rw [hlast]; exact hb')
  simp only [readBlockTurn, wp_bind, wp_i2c, wp_ite, hfirst, hi, hL]
  have hcall : i2cBytein T false false (k + 2 == n + 2) (k + 1 == n + 2) b = (f k, b') := by
    rw [← hrun, ← hlast]
    rfl
  have hb : (s.stored f k b).toI2c = b := rfl
  rw [hb, hcall]
  simp only [hne, false_and, if_false, wp_get, wp_setEp0buf, wp_setTemp, wp_pure, hL]
  have hstore : k + 1 < n + 2 := by omega
  have hnot : ¬ k + 1 = n + 2 := by omega
  simp only [hstore, hnot, and_true, and_false, if_true, if_false]
  split
  · next h64 =>
    rw [BitVec.lt_def, hi] at h64
    have := stored_succ_ep0buf (s := s) (f := f) (b := b') (k := k) h64
    simp only [Fx2.stored] at this hQ' ⊢
    rw [this]
    exact hQ'
  · next h64 =>
    rw [BitVec.lt_def, hi] at h64
    have := stored_succ_temp (s := s) (f := f) (b := b') (k := k) (Nat.not_lt.mp h64)
      (by simp only [tempSize]; omega)
    simp only [Fx2.stored] at this hQ' ⊢
    rw [this]
    exact hQ'

/-- What happens when the first byte, the count, is received. -/
def countEvents (s : Fx2) (f : Nat → Byte) : List Event :=
  [.fetch s.i2dat, .recv (f 0) s.lastrdBit]

theorem i2cBytein_count (hT : Responsive T) (h0 : f 0 = (T.recv (s.trace ++ [.fetch s.i2dat])).2)
    (hrecv : (T.recv (s.trace ++ countEvents s f ++ askEvents f false 0)).2 = f 1) :
    ∃ b, i2cBytein T true false false false s.toI2c = (f 0, b) ∧
      Arrived f 1 (s.trace ++ countEvents s f ++ turnEvents f false false 0) b := by
  obtain ⟨b₀, hfirst, hdat, hbit, htrace⟩ := i2cBytein_first hT false false s.toI2c
  rw [← h0] at hdat
  have ha : Arrived f 0 (s.trace ++ countEvents s f) b₀ := by
    refine ⟨hdat, hbit, ?_⟩
    rw [htrace, hdat]
    rfl
  obtain ⟨b, hrun, hb⟩ := i2cBytein_turn hT ha false hrecv
  exact ⟨b, hfirst.trans hrun, hb⟩

/-- The first turn learns the length of the block. -/
theorem wp_readBlockTurn_first {pec : Byte} (hT : Responsive T)
    (h0 : f 0 = (T.recv (s.trace ++ [.fetch s.i2dat])).2) (hn : (f 0).toNat = n) (h1 : 0 < n)
    (h2 : n < 254)
    (hrecv : (T.recv (s.trace ++ countEvents s f ++ askEvents f (blockBeforeLast n 0) 0)).2 = f 1)
    (hQ : ∀ b, Arrived f 1 (s.trace ++ countEvents s f ++
        turnEvents f (blockBeforeLast n 0) (blockLast n 0) 0) b →
      Q { i := 1, blocklen := BitVec.ofNat 8 (n + 2),
          pec := if s.pecEnabled then pecCrc pec (f 0) else pec, rpec := 0 } (s.stored f 1 b)) :
    wp (readBlockTurn T { i := 0, blocklen := 255, pec, rpec := 0 }) Q E s := by
  have hbl : blockBeforeLast n 0 = false := by simp [blockBeforeLast]; omega
  have hl : blockLast n 0 = false := by simp [blockLast]
  rw [hbl] at hrecv
  obtain ⟨b, hrun, hb⟩ := i2cBytein_count hT h0 hrecv
  have hQ' := hQ b (by rw [hbl, hl]; exact hb)
  have hlen : (f 0 + 2).toNat = n + 2 := by
    have h2 : (2 : Byte).toNat = 2 := rfl
    rw [BitVec.toNat_add, h2]
    omega
  have hlen' : f 0 + 2 = BitVec.ofNat 8 (n + 2) := by
    rw [← hlen, BitVec.ofNat_toNat, BitVec.setWidth_eq]
  have hok : ¬ (True ∧ (0xFE < f 0 ∨ f 0 = 0)) := by
    rintro ⟨-, h | h⟩
    · rw [BitVec.lt_def, hn] at h
      simp at h
      omega
    · rw [h] at hn
      simp at hn
      omega
  simp only [readBlockTurn, wp_bind, wp_i2c, wp_ite]
  have hcall : i2cBytein T ((0 : Byte) == 0) false ((0 : Byte).toNat + 2 == (255 : Byte).toNat)
      ((0 : Byte).toNat + 1 == (255 : Byte).toNat) s.toI2c = (f 0, b) := hrun
  rw [hcall]
  simp only [hok, if_false, if_true, wp_get, wp_setEp0buf, wp_setTemp, wp_pure, hlen]
  have hz : (0 : Byte).toNat = 0 := rfl
  have hlt : (0 : Byte) < 64 := by decide
  have hstore : 0 + 1 < n + 2 := by omega
  have hnot : ¬ 0 + 1 = n + 2 := by omega
  simp only [hz, hlt, hstore, hnot, and_true, and_false, if_true, if_false]
  have hs := stored_succ_ep0buf (s := s) (f := f) (b := b) (k := 0) (by omega)
  have hzero : s.stored f 0 b = { s with toI2c := b } := by simp [Fx2.stored, firstBytes]
  rw [hzero] at hs
  simp only [Nat.zero_add] at hs
  simp only [Fx2.stored] at hs hQ' ⊢
  rw [hs, hlen']
  exact hQ'

/-- The last turn keeps its byte, the PEC, apart. -/
theorem wp_readBlockTurn_last (hT : Responsive T) (hi : v.i.toNat = n + 1)
    (hL : v.blocklen.toNat = n + 2) (ha : Arrived f (n + 1) tr b)
    (hQ : ∀ b', b'.lastrdBit = false →
        b'.trace = tr ++ turnEvents f (blockBeforeLast n (n + 1)) (blockLast n (n + 1)) (n + 1) →
      Q { v with i := v.i + 1, rpec := if s.pecEnabled then f (n + 1) else v.rpec }
        (s.stored f (n + 1) b')) :
    wp (readBlockTurn T v) Q E (s.stored f (n + 1) b) := by
  have hlt := v.blocklen.isLt
  have hne : ¬ v.i = 0 := by
    intro h
    rw [h] at hi
    simp at hi
  have hfirst : (v.i == 0) = false := by simpa using hne
  have hbl : blockBeforeLast n (n + 1) = false := by simp [blockBeforeLast]
  have hl : blockLast n (n + 1) = true := by simp [blockLast]
  obtain ⟨b', hrun, hbit, htrace⟩ := i2cBytein_last hT ha
  have hQ' := hQ b' hbit (by rw [hbl, hl]; exact htrace)
  simp only [readBlockTurn, wp_bind, wp_i2c, wp_ite, hfirst, hi, hL]
  have hcall : i2cBytein T false false (n + 1 + 2 == n + 2) (n + 1 + 1 == n + 2) b =
      (f (n + 1), b') := by
    rw [← hrun, ← hbl, ← hl]
    rfl
  have hb : (s.stored f (n + 1) b).toI2c = b := rfl
  rw [hb, hcall]
  have hstore : ¬ n + 1 + 1 < n + 2 := by omega
  simp only [hne, false_and, if_false, wp_get, wp_pure, hL, hstore, and_false, and_true]
  exact hQ'

end

/-! ## The loop -/

section

variable {T : Target} {f : Nat → Byte} {n fuel : Nat} {smbAddr smbCmd : Word} {s : Fx2}

/-- The PEC over the address bytes and the first `k` bytes received, when it is on. -/
def readPec (on : Bool) (smbAddr smbCmd : Word) (f : Nat → Byte) (k : Nat) : Byte :=
  if on then crc8 (readAddress smbAddr smbCmd ++ firstBytes f k) else 0

theorem readPec_zero (on : Bool) :
    readPec on smbAddr smbCmd f 0 = if on then
      pecCrc (pecCrc (pecCrc 0 (toByte smbAddr)) (toByte smbCmd))
        (toByte (smbAddr + 1)) else 0 := rfl

theorem readPec_succ (on : Bool) (k : Nat) :
    readPec on smbAddr smbCmd f (k + 1) =
      if on then pecCrc (readPec on smbAddr smbCmd f k) (f k)
      else readPec on smbAddr smbCmd f k := by
  cases on with
  | false => rfl
  | true =>
      simp only [readPec, if_true]
      rw [firstBytes_succ, ← List.append_assoc, crc8_snoc]

/-- The state after a block of `n` bytes was read, up to the check of the PEC. -/
def Fx2.blockRead (s : Fx2) (f : Nat → Byte) (n : Nat) (b : I2c) : Fx2 :=
  if 63 < n then
    { s.stored f (n + 1) b with templen := BitVec.ofNat 16 (n - 63), tempptr := 0, count := 0 }
  else s.stored f (n + 1) b

/-- The events of a block read behind the address bytes. -/
def blockEvents (s : Fx2) (f : Nat → Byte) (n : Nat) : List Event :=
  countEvents s f ++ turns f (blockBeforeLast n) (blockLast n) (n + 2)

/-- A block read receives the count, the data and one byte more, and ends the read. -/
theorem blockEvents_endsRead : EndsRead (firstBytes f (n + 1)) (f (n + 1)) (blockEvents s f n) := by
  have hbl : ∀ i < n, blockBeforeLast n i = false := by
    intro i hi
    simp [blockBeforeLast]
    omega
  have hlast : ∀ i < n, blockLast n i = false := by
    intro i hi
    simp [blockLast]
    omega
  have hplain : ∀ e, (e = Event.lastrd ∨ e = Event.stop) → e ∉ countEvents s f ++
      turns f (blockBeforeLast n) (blockLast n) n := by
    intro e he hmem
    rw [List.mem_append] at hmem
    rcases hmem with hmem | hmem
    · rcases he with rfl | rfl <;> simp [countEvents] at hmem
    · rcases mem_turns_plain hbl hlast hmem with ⟨b, rfl⟩ | ⟨b, rfl⟩ <;> simp at he
  refine ⟨countEvents s f ++ turns f (blockBeforeLast n) (blockLast n) n, f n, ?_, ?_,
    hplain _ (.inl rfl), hplain _ (.inr rfl)⟩
  · have hend : turns f (blockBeforeLast n) (blockLast n) (n + 2) = _ :=
      turns_end (fun _ => rfl) (fun _ => rfl)
    rw [blockEvents, hend, List.append_assoc]
  · rw [recvBytes_append, recvBytes_turns hlast (Nat.le_refl n), firstBytes,
      List.range_succ_eq_map, List.map_cons, List.map_map]
    rfl

/-- A block with a count from 1 to 253 is read to its end. -/
theorem readBlockData_run {Q : Bool → Fx2 → Prop} {E : Label → Fx2 → Prop} (hT : Responsive T)
    (hfuel : 256 ≤ fuel) (h0 : f 0 = (T.recv (s.trace ++ [.fetch s.i2dat])).2)
    (hn : (f 0).toNat = n) (h1 : 0 < n) (h2 : n < 254)
    (hfol : Follows T (s.trace ++ countEvents s f) f (blockBeforeLast n) (blockLast n) (n + 1))
    (hend : ∀ b, b.lastrdBit = false → b.trace = s.trace ++ blockEvents s f n →
      if s.pecEnabled = true ∧ f (n + 1) ≠ readPec s.pecEnabled smbAddr smbCmd f (n + 1) then
        E .rlfail { s.blockRead f n b with pecFailed := true }
      else Q true { s.blockRead f n b with ep0bcl := BitVec.ofNat 8 (min 64 (n + 1)) }) :
    wp (readBlockData T fuel smbAddr smbCmd) Q E s := by
  obtain ⟨fuel, rfl⟩ : ∃ m, fuel = m + 2 + n + 1 := ⟨fuel - 3 - n, by omega⟩
  have hlen : (BitVec.ofNat 8 (n + 2)).toNat = n + 2 := by simp; omega
  simp only [readBlockData, wp_bind, wp_get, ← readPec_zero (f := f)]
  rw [wp_whileLoop_succ, if_pos (show decide ((0 : Byte) < 255) = true from rfl)]
  refine wp_readBlockTurn_first hT h0 hn h1 h2 (by simpa [turns] using hfol 0 (by omega))
    fun b hb => ?_
  -- The turns from the second to the last but one.
  refine wp_whileLoop_add (fun j v t => v.i.toNat = j + 1 ∧ v.blocklen = BitVec.ofNat 8 (n + 2) ∧
    v.pec = readPec s.pecEnabled smbAddr smbCmd f (j + 1) ∧ v.rpec = 0 ∧
    ∃ b, t = s.stored f (j + 1) b ∧ Arrived f (j + 1) (s.trace ++ countEvents s f ++
      turns f (blockBeforeLast n) (blockLast n) (j + 1)) b) n ?_ ?_ ?_
  · rintro j hj v t ⟨hi, hL, hpec, hrpec, b, rfl, hb⟩
    refine ⟨by rw [decide_eq_true_eq, BitVec.lt_def, hi, hL, hlen]; omega, ?_⟩
    refine wp_readBlockTurn_middle (n := n) hT hi (by rw [hL, hlen]) (by omega) (by omega) hb
      (hfol (j + 1) (by omega)) fun b' hb' => ?_
    refine ⟨by rw [toNat_succ (by omega), hi], hL, ?_, hrpec, b', rfl, ?_⟩
    · rw [readPec_succ, ← hpec]
    · rw [turns, ← List.append_assoc]
      exact hb'
  · rintro v t ⟨hi, hL, hpec, hrpec, b, rfl, hb⟩
    have hlt : ∀ i : Byte, i.toNat = n + 1 → decide (i < v.blocklen) = true := by
      intro i hi
      rw [decide_eq_true_eq, BitVec.lt_def, hi, hL, hlen]
      omega
    rw [wp_whileLoop_succ, if_pos (hlt v.i hi)]
    refine wp_readBlockTurn_last (n := n) hT hi (by rw [hL, hlen]) hb fun b' hbit htrace => ?_
    have hover : ¬ decide (v.i + 1 < v.blocklen) = true := by
      rw [decide_eq_true_eq, BitVec.lt_def, toNat_succ (by omega), hi, hL, hlen]
      omega
    rw [wp_whileLoop_succ, if_neg hover]
    have hturns : turns f (blockBeforeLast n) (blockLast n) (n + 2) =
        turns f (blockBeforeLast n) (blockLast n) (n + 1) ++
          turnEvents f (blockBeforeLast n (n + 1)) (blockLast n (n + 1)) (n + 1) := rfl
    have hend' := hend b' hbit (by rw [htrace, blockEvents, hturns]; simp)
    have hlong : 65 < v.blocklen.toNat ↔ 63 < n := by rw [hL, hlen]; omega
    have hafter : (if 65 < v.blocklen.toNat then
        { s.stored f (n + 1) b' with
          templen := v.blocklen.setWidth 16 - 65, tempptr := 0, count := 0 }
        else s.stored f (n + 1) b') = s.blockRead f n b' := by
      simp only [Fx2.blockRead, hlong]
      split
      · next h63 =>
        have htl : v.blocklen.setWidth 16 - 65 = BitVec.ofNat 16 (n - 63) := by
          apply BitVec.eq_of_toNat_eq
          rw [hL]
          simp
          omega
        rw [htl]
      · rfl
    have hbcl : (if 65 < v.blocklen.toNat then (64 : Byte) else v.blocklen - 1) =
        BitVec.ofNat 8 (min 64 (n + 1)) := by
      simp only [hlong]
      apply BitVec.eq_of_toNat_eq
      split
      · next h63 => simp; omega
      · next h63 => rw [hL]; simp; omega
    have hpecEnabled : (s.blockRead f n b').pecEnabled = s.pecEnabled := by
      unfold Fx2.blockRead
      split <;> rfl
    rw [wp_modify, hafter, wp_ite, hpecEnabled, hpec]
    simp only [wp_bind, wp_modify, wp_goto, wp_setEp0bcl, wp_pure, hbcl]
    by_cases hon : s.pecEnabled = true
    · simpa only [hon, true_and, if_true] using hend'
    · simpa only [hon, Bool.false_eq_true, false_and, if_false] using hend'
  · exact ⟨rfl, rfl, by rw [readPec_succ], rfl, b, rfl, by simpa [turns] using hb⟩

/-- The counts 0 and 255 end the read. -/
theorem readBlockData_bad {Q : Bool → Fx2 → Prop} {E : Label → Fx2 → Prop} (hT : Responsive T)
    (hfuel : 0 < fuel)
    (hbad : (T.recv (s.trace ++ [.fetch s.i2dat])).2 = 0 ∨
      (T.recv (s.trace ++ [.fetch s.i2dat])).2 = 0xFF)
    (hend : ∀ b, E .rlstopfail { s with toI2c := b }) :
    wp (readBlockData T fuel smbAddr smbCmd) Q E s := by
  obtain ⟨fuel, rfl⟩ : ∃ m, fuel = m + 1 := ⟨fuel - 1, by omega⟩
  obtain ⟨f, h0, hfol⟩ := exists_follows T
    (s.trace ++ [.fetch s.i2dat, .recv (T.recv (s.trace ++ [.fetch s.i2dat])).2 s.lastrdBit])
    (T.recv (s.trace ++ [.fetch s.i2dat])).2 (fun _ => false) (fun _ => false)
  rw [← h0] at hbad hfol
  obtain ⟨b, hrun, -⟩ :=
    i2cBytein_count (s := s) hT h0 (by simpa [turns, countEvents] using hfol 1 0 (by omega))
  have hcall : i2cBytein T ((0 : Byte) == 0) false ((0 : Byte).toNat + 2 == (255 : Byte).toNat)
      ((0 : Byte).toNat + 1 == (255 : Byte).toNat) s.toI2c = (f 0, b) := hrun
  have hrefused : 0xFE < f 0 ∨ f 0 = 0 := by
    rcases hbad with h | h
    · exact .inr h
    · exact .inl (by rw [h]; decide)
  simp only [readBlockData, wp_bind, wp_get]
  rw [wp_whileLoop_succ, if_pos (show decide ((0 : Byte) < 255) = true from rfl)]
  simp only [readBlockTurn, wp_bind, wp_i2c, wp_ite, hcall, hrefused, and_self, if_true, wp_goto]
  exact hend b

end

/-! ## Requests -/

/-- The data of a block read that is still to be handed out. -/
structure Outstanding (rest : List Byte) (s : Fx2) : Prop where
  len : s.templen.toNat = s.tempptr.toNat + rest.length
  bound : s.templen.toNat ≤ tempSize
  data : s.temp.read s.tempptr.toNat rest.length = rest

theorem Outstanding.tick {rest : List Byte} {s : Fx2} (h : Outstanding rest s) (ticks : Nat) :
    Outstanding rest (s.tick ticks) := ⟨h.len, h.bound, h.data⟩

section

variable {T : Target} {f : Nat → Byte} {n fuel : Nat} {smbAddr smbCmd : Word} {s : Fx2}

variable (T fuel smbAddr smbCmd) in
/-- A request with data outstanding, in time, hands out up to 64 bytes of it. -/
theorem readBlock_hands_out {rest : List Byte} (hfuel : 65 ≤ fuel) (h : Outstanding rest s)
    (hpos : 0 < rest.length) (hlive : s.count ≤ blockSeqTimeout) :
    ∃ s', readBlock T fuel smbAddr smbCmd s = .ok true s' ∧ s'.reply 64 = rest.take 64 ∧
      s'.toI2c = s.toI2c ∧ s'.pecFailed = s.pecFailed ∧ Outstanding (rest.drop 64) s' ∧
      (rest.length ≤ 64 → s'.templen = 0 ∧ s'.tempptr = 0) := by
  have hlen := h.len
  have hptr : s.tempptr.toNat < s.templen.toNat := by omega
  have hsub : (s.templen - s.tempptr).toNat = s.templen.toNat - s.tempptr.toNat := by
    rw [BitVec.toNat_sub_of_le (by rw [BitVec.le_def]; omega)]
  have hmore : 0 < s.templen - s.tempptr := by
    rw [BitVec.lt_def, hsub]
    simpa using hptr
  have hbound : s.templen.toNat ≤ 192 := h.bound
  have hrun := readBlockNext_run fuel hfuel s h.bound hptr
  have hn : s.templen.toNat - s.tempptr.toNat = rest.length := by omega
  simp only [hn] at hrun
  have hpiece : s.temp.read s.tempptr.toNat (min 64 rest.length) = rest.take 64 := by
    rw [← Mem.take_read, h.data]
  have hrest : s.temp.read (s.tempptr.toNat + 64) (rest.length - 64) = rest.drop 64 := by
    rw [← Mem.drop_read, h.data]
  have hfresh : readBlock T fuel smbAddr smbCmd s = readBlockNext fuel s := by
    have : readBlock T fuel smbAddr smbCmd s =
        (if 0 < s.expire.templen - s.expire.tempptr then readBlockNext fuel
        else labels (readBlockFresh T fuel smbAddr smbCmd) (readBlockFail T)) s.expire := rfl
    rw [this, Fx2.expire_of_live hlive, if_pos hmore]
  have hreply : (s.ep0buf.write 0 (s.temp.read s.tempptr.toNat (min 64 rest.length))).read 0
      (min (BitVec.ofNat 8 (min 64 rest.length)).toNat 64) = rest.take 64 := by
    have hmin : min (BitVec.ofNat 8 (min 64 rest.length)).toNat 64 = (rest.take 64).length := by
      rw [List.length_take]
      simp
      omega
    rw [hpiece, hmin, Mem.read_write]
  rw [hfresh, hrun]
  split
  · next hdone =>
    refine ⟨_, rfl, hreply, rfl, rfl, ?_, fun _ => ⟨rfl, rfl⟩⟩
    have hnil : rest.drop 64 = [] := List.drop_of_length_le (by omega)
    rw [hnil]
    exact ⟨rfl, Nat.zero_le _, rfl⟩
  · next hdone =>
    have h64 : 64 < rest.length := by omega
    have hptr' : (BitVec.ofNat 16 (s.tempptr.toNat + min 64 rest.length)).toNat =
        s.tempptr.toNat + 64 := by
      simp
      omega
    refine ⟨_, rfl, hreply, rfl, rfl, ⟨?_, h.bound, ?_⟩, fun hle => by omega⟩
    · rw [List.length_drop]
      simp only [hptr']
      omega
    · simp only [hptr', List.length_drop]
      exact hrest

/-- A request without data outstanding addresses the target and reads a block. -/
theorem wp_readBlock_fresh {Q : Bool → Fx2 → Prop} (hidle : s.expire.templen = s.expire.tempptr)
    (hfail : ¬ AcksAddress T smbAddr smbCmd s.trace → ∀ s', Q false s')
    (haddr : ∀ k b, Extends s.toI2c (List.replicate k (.start true) ++
        addressEvents (toByte smbAddr) (toByte smbCmd) (toByte (smbAddr + 1))) b →
      b.lastrdBit = s.lastrdBit → (AcksAddress T smbAddr smbCmd s.trace → k = 0) →
      wp (readBlockData T fuel smbAddr smbCmd) Q
        (fun l => wp (readBlockFail T l) Q fun _ _ => False) { s.expire with toI2c := b }) :
    wp (readBlock T fuel smbAddr smbCmd) Q (fun _ _ => False) s := by
  simp only [readBlock, expireSeq, wp_bind, wp_modify, wp_get]
  rw [if_neg (by rw [hidle]; simp)]
  simp only [wp_labels, readBlockFresh, wp_bind]
  refine wp_readBlockAddress T smbAddr smbCmd _ ?_ ?_
  · intro l _ b hno _ _
    rw [Fx2.expire_toI2c] at hno
    exact wp_mono (wp_readBlockFail T l _) (fun _ s' h => by rw [h.1]; exact hfail hno s')
      (fun _ _ h => h)
  · intro k b hext hbit hk
    rw [Fx2.expire_toI2c] at hext hbit hk
    exact haddr k b hext hbit hk

/-- The bus after a target was addressed, with `k` STARTs that failed, and a block was
read. -/
def BlockOnBus (smbAddr smbCmd : Word) (k : Nat) (f : Nat → Byte) (n : Nat) (s s' : Fx2) : Prop :=
  ∃ ext, s'.trace = s.trace ++ (List.replicate k (.start true) ++
    addressEvents (toByte smbAddr) (toByte smbCmd) (toByte (smbAddr + 1))) ++ ext ∧
    EndsRead (firstBytes f (n + 1)) (f (n + 1)) ext

/-- A block was read: its first bytes are the reply, the others are to be handed out. -/
structure BlockReady (f : Nat → Byte) (n : Nat) (s s' : Fx2) : Prop where
  reply : s'.reply 64 = (firstBytes f (n + 1)).take 64
  long : 63 < n → Outstanding ((firstBytes f (n + 1)).drop 64) s' ∧ s'.count = 0
  short : n ≤ 63 → s'.templen = s.expire.templen ∧ s'.tempptr = s.expire.tempptr

/-- A long block leaves its end outstanding, whatever its PEC is. -/
theorem outstanding_blockRead {t : Fx2} {b : I2c} (h63 : 63 < n) (h2 : n < 254) :
    Outstanding ((firstBytes f (n + 1)).drop 64) (t.blockRead f n b) ∧
      (t.blockRead f n b).count = 0 := by
  refine ⟨⟨?_, ?_, ?_⟩, ?_⟩
  · simp only [Fx2.blockRead, h63, if_true, List.length_drop, length_firstBytes]
    simp
    omega
  · simp only [Fx2.blockRead, h63, if_true, tempSize]
    simp
    omega
  · simp only [Fx2.blockRead, h63, if_true, Fx2.stored, drop_firstBytes]
    exact Mem.read_write _ 0 _
  · simp only [Fx2.blockRead, h63, if_true]

theorem blockReady_blockRead {t : Fx2} {b : I2c} (h2 : n < 254)
    (htl : t.templen = s.expire.templen) (hptr : t.tempptr = s.expire.tempptr) :
    BlockReady f n s { t.blockRead f n b with ep0bcl := BitVec.ofNat 8 (min 64 (n + 1)) } := by
  refine ⟨?_, fun h63 => ?_, fun h63 => ?_⟩
  · have hbuf : (t.blockRead f n b).ep0buf =
        t.ep0buf.write 0 (firstBytes f (min 64 (n + 1))) := by
      unfold Fx2.blockRead
      split <;> rfl
    have hmin : min (BitVec.ofNat 8 (min 64 (n + 1))).toNat 64 =
        (firstBytes f (min 64 (n + 1))).length := by
      rw [length_firstBytes]
      simp
      omega
    simp only [Fx2.reply, hbuf]
    rw [hmin, Mem.read_write, take_firstBytes]
  · obtain ⟨h, hcount⟩ := outstanding_blockRead (f := f) (t := t) (b := b) h63 h2
    exact ⟨⟨h.len, h.bound, h.data⟩, hcount⟩
  · simp only [Fx2.blockRead, Nat.not_lt.mpr h63, if_false]
    exact ⟨htl, hptr⟩

/-- The block is read, from the state `t` in which the target is addressed. -/
theorem wp_readBlockData_addressed {Q : Bool → Fx2 → Prop} {k : Nat} {t : Fx2} (hT : Responsive T)
    (hfuel : 256 ≤ fuel)
    (hb : Extends s.toI2c (List.replicate k (.start true) ++
      addressEvents (toByte smbAddr) (toByte smbCmd) (toByte (smbAddr + 1))) t.toI2c)
    (ht : t = { s.expire with toI2c := t.toI2c })
    (h0 : f 0 = (T.recv (t.trace ++ [.fetch t.i2dat])).2) (hn : (f 0).toNat = n) (h1 : 0 < n)
    (h2 : n < 254)
    (hfol : Follows T (t.trace ++ countEvents t f) f (blockBeforeLast n) (blockLast n) (n + 1))
    (hbad : s.pecEnabled = true → f (n + 1) ≠ readPec true smbAddr smbCmd f (n + 1) →
      ∀ s', BlockOnBus smbAddr smbCmd k f n s s' → s'.pecFailed = true →
      (63 < n → Outstanding ((firstBytes f (n + 1)).drop 64) s' ∧ s'.count = 0) → Q false s')
    (hgood : (s.pecEnabled = true → f (n + 1) = readPec true smbAddr smbCmd f (n + 1)) →
      ∀ s', BlockOnBus smbAddr smbCmd k f n s s' → BlockReady f n s s' → Q true s') :
    wp (readBlockData T fuel smbAddr smbCmd) Q
      (fun l => wp (readBlockFail T l) Q fun _ _ => False) t := by
  have hon : t.pecEnabled = s.pecEnabled := by
    rw [ht]
    exact Fx2.expire_pecEnabled
  have htl : t.templen = s.expire.templen := by rw [ht]
  have hptr : t.tempptr = s.expire.tempptr := by rw [ht]
  have hbus : ∀ s' : Fx2, s'.trace = t.trace ++ blockEvents t f n →
      BlockOnBus smbAddr smbCmd k f n s s' := by
    intro s' h
    exact ⟨_, by rw [h, hb], blockEvents_endsRead (s := t)⟩
  have htrace : ∀ b, (t.blockRead f n b).trace = b.trace := by
    intro b
    unfold Fx2.blockRead
    split <;> rfl
  refine readBlockData_run hT hfuel h0 hn h1 h2 hfol fun b _ hb' => ?_
  rw [hon]
  split
  · next hpec =>
    have hne : f (n + 1) ≠ readPec true smbAddr smbCmd f (n + 1) := by
      have := hpec.2
      rwa [hpec.1] at this
    refine hbad hpec.1 hne _ (hbus _ ((htrace b).trans hb')) rfl fun h63 => ?_
    obtain ⟨h, hcount⟩ := outstanding_blockRead (f := f) (t := t) (b := b) h63 h2
    exact ⟨⟨h.len, h.bound, h.data⟩, hcount⟩
  · next hpec =>
    refine hgood ?_ _ (hbus _ ((htrace b).trans hb')) (blockReady_blockRead h2 htl hptr)
    intro h
    rw [h] at hpec
    simpa using hpec

/-- The target never announces a block of 254 bytes, the count at which the `BYTE`
`blocklen` wraps to 0. -/
def CountsFit (T : Target) : Prop :=
  ∀ tr addr g, (T.recv (tr ++ [.restart, .sent addr (some .ack), .fetch g])).2 ≠ 0xFE

variable (fuel smbAddr smbCmd) in
/-- A fresh request to any responsive target fails or reads a block. -/
theorem readBlock_fresh (hT : Responsive T) (hfit : CountsFit T) (hfuel : 256 ≤ fuel)
    (hidle : s.expire.templen = s.expire.tempptr) :
    ∃ ok s', readBlock T fuel smbAddr smbCmd s = .ok ok s' ∧ (ok = true → ∃ k f n,
      (f 0).toNat = n ∧ 0 < n ∧ n < 254 ∧ BlockOnBus smbAddr smbCmd k f n s s' ∧
      BlockReady f n s s') := by
  refine exists_run_of_wp (wp_readBlock_fresh hidle ?_ ?_)
  · exact fun _ _ h => Bool.noConfusion h
  · intro k b hb _ _
    obtain ⟨t, ht⟩ : ∃ t : Fx2, t = { s.expire with toI2c := b } := ⟨_, rfl⟩
    have htb : t.toI2c = b := by rw [ht]
    rw [← ht]
    by_cases hbad : (T.recv (t.trace ++ [.fetch t.i2dat])).2 = 0 ∨
        (T.recv (t.trace ++ [.fetch t.i2dat])).2 = 0xFF
    · refine readBlockData_bad hT (by omega) hbad fun b' => ?_
      exact wp_mono (wp_readBlockFail T _ _) (fun ok _ h hok => by simp [h.1] at hok)
        (fun _ _ h => h)
    rw [not_or] at hbad
    have hwrap : (T.recv (t.trace ++ [.fetch t.i2dat])).2 ≠ 0xFE := by
      have htr : t.trace = s.trace ++ (List.replicate k (.start true) ++
          addressEvents (toByte smbAddr) (toByte smbCmd) (toByte (smbAddr + 1))) := by
        rw [htb]
        exact hb
      have h := hfit (s.trace ++ (List.replicate k (.start true) ++ [.start false,
        .sent (toByte smbAddr) (some .ack), .sent (toByte smbCmd) (some .ack)]))
        (toByte (smbAddr + 1)) t.i2dat
      rw [htr]
      simpa [addressEvents] using h
    generalize hbyte : (T.recv (t.trace ++ [.fetch t.i2dat])).2 = c at hbad hwrap
    obtain ⟨f, h0, hfol⟩ := exists_follows T
      (t.trace ++ [.fetch t.i2dat, .recv c t.lastrdBit]) c (blockBeforeLast c.toNat)
      (blockLast c.toNat)
    rw [← h0] at hbyte hbad hwrap hfol
    have hlt := (f 0).isLt
    have hcount : 0 < (f 0).toNat ∧ (f 0).toNat < 254 := by
      have e0 : (f 0).toNat ≠ 0 := fun h => hbad.1 (BitVec.eq_of_toNat_eq h)
      have e1 : (f 0).toNat ≠ 255 := fun h => hbad.2 (BitVec.eq_of_toNat_eq h)
      have e2 : (f 0).toNat ≠ 254 := fun h => hwrap (BitVec.eq_of_toNat_eq h)
      omega
    refine wp_readBlockData_addressed (s := s) hT hfuel
      (by rw [htb]; exact hb) (by rw [htb]; exact ht)
      hbyte.symm rfl hcount.1 hcount.2 (hfol _) ?_ ?_
    · exact fun _ _ _ _ _ _ h => Bool.noConfusion h
    · exact fun _ s' hbus hready _ => ⟨k, f, _, rfl, hcount.1, hcount.2, hbus, hready⟩

variable (fuel smbAddr smbCmd) in
/-- A fresh request to a target that ACKs and sends a whole block. -/
theorem readBlock_fresh_acks (hT : Responsive T) (hA : AcksAddress T smbAddr smbCmd s.trace)
    (hfuel : 256 ≤ fuel) (hidle : s.expire.templen = s.expire.tempptr)
    (hstream : Streams T (s.trace ++
      addressEvents (toByte smbAddr) (toByte smbCmd) (toByte (smbAddr + 1))) f)
    (hn : (f 0).toNat = n) (h1 : 0 < n) (h2 : n < 254) :
    ∃ ok s', readBlock T fuel smbAddr smbCmd s = .ok ok s' ∧ BlockOnBus smbAddr smbCmd 0 f n s s' ∧
      ((s.pecEnabled = true → f (n + 1) = readPec true smbAddr smbCmd f (n + 1)) →
        ok = true ∧ BlockReady f n s s') ∧
      (s.pecEnabled = true → f (n + 1) ≠ readPec true smbAddr smbCmd f (n + 1) →
        ok = false ∧ s'.pecFailed = true ∧
        (63 < n → Outstanding ((firstBytes f (n + 1)).drop 64) s' ∧ s'.count = 0)) := by
  refine exists_run_of_wp (wp_readBlock_fresh hidle (fun h => absurd hA h) ?_)
  intro k b hb _ hk
  obtain rfl := hk hA
  rw [List.replicate_zero, List.nil_append] at hb
  obtain ⟨t, ht⟩ : ∃ t : Fx2, t = { s.expire with toI2c := b } := ⟨_, rfl⟩
  have htb : t.toI2c = b := by rw [ht]
  have htr : t.trace = s.trace ++
      addressEvents (toByte smbAddr) (toByte smbCmd) (toByte (smbAddr + 1)) := by
    rw [htb]
    exact hb
  rw [← ht]
  have hlast : ∀ i < n + 1, blockLast n i = false := by
    intro i hi
    simp [blockLast]
    omega
  refine wp_readBlockData_addressed (s := s) (k := 0) hT hfuel
    (by rw [htb, List.replicate_zero, List.nil_append]; exact hb)
    (by rw [htb]; exact ht) ?_ hn h1 h2
    ?_ ?_ ?_
  · rw [htr, hstream]
    rfl
  · rw [htr]
    exact hstream.follows hlast rfl
  · intro hon hne s' hbus hfailed hlong
    exact ⟨hbus, fun h => absurd (h hon) hne, fun _ _ => ⟨rfl, hfailed, hlong⟩⟩
  · intro heq s' hbus hready
    exact ⟨hbus, fun _ => ⟨rfl, hready⟩, fun hon hne => absurd (heq hon) hne⟩

end

end Smbusb
