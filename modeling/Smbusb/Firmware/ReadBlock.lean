import Smbusb.Firmware.Receiving

/-!
# Block reads in the firmware

What one `READ_BLOCK` request does.

With data outstanding it hands out the next piece of `temp`
(`readBlock_hands_out`).  Otherwise it addresses the target and reads a block: the
count, the data, and one byte more for the PEC.

*Any target.*  A request sends no byte but its own address and command, and keeps
the cursors inside `temp` (`readBlock_sends`).

*Responsive targets.*  For a stream `f` that the target follows, with a count
`f 0` from 1 to 253, `readBlockData_run` gives the state after the block was read:
the first 64 bytes are in `EP0BUF`, the rest is in `temp`, the PEC byte is in
neither.
-/

namespace Smbusb

open Logic Prog Fw Handler

/-! ## Handing out data -/

section

variable (T : Target) (fuel : Nat) (smbAddr smbCmd : Word)

/-- A request with data outstanding, for a sequence of any length.  `oob` stays what it was if
the sequence fits into `temp`. -/
theorem readBlockNext_ok (hfuel : 65 ≤ fuel) (s : Fx2) (hlen : s.templen.toNat ≤ 255)
    (hptr : s.tempptr.toNat < s.templen.toNat) :
    let n := min 64 (s.templen.toNat - s.tempptr.toNat)
    ∃ oob, (s.templen.toNat ≤ tempSize → oob = s.oob) ∧
      let s' := { s with
        ep0buf := s.ep0buf.write 0 (s.temp.read s.tempptr.toNat n)
        ep0bcl := BitVec.ofNat 8 n
        oob }
      readBlockNext fuel s = .ok true
        (if s.templen.toNat = s.tempptr.toNat + n then { s' with tempptr := 0, templen := 0 }
          else { s' with tempptr := BitVec.ofNat 16 (s.tempptr.toNat + n) }) := by
  intro n
  have hsub : (s.templen - s.tempptr).toNat = s.templen.toNat - s.tempptr.toNat := by
    rw [BitVec.toNat_sub_of_le (by rw [BitVec.le_def]; omega)]
  have hblock : (if 64 < s.templen - s.tempptr then (64 : Byte)
      else toByte (s.templen - s.tempptr)) = BitVec.ofNat 8 n := by
    apply BitVec.eq_of_toNat_eq
    split
    · next h => rw [BitVec.lt_def, hsub] at h; simp [n] at h ⊢; omega
    · next h =>
      rw [BitVec.lt_def, hsub] at h
      simp [n, toByte, hsub] at h ⊢
      omega
  have hn : (BitVec.ofNat 8 n).toNat = n := by simp; omega
  have h : wp (readBlockNext fuel) (fun ok t => ok = true ∧ ∃ oob,
      (s.templen.toNat ≤ tempSize → oob = s.oob) ∧
      let s' := { s with
        ep0buf := s.ep0buf.write 0 (s.temp.read s.tempptr.toNat n)
        ep0bcl := BitVec.ofNat 8 n
        oob }
      t = if s.templen.toNat = s.tempptr.toNat + n then { s' with tempptr := 0, templen := 0 }
        else { s' with tempptr := BitVec.ofNat 16 (s.tempptr.toNat + n) })
      (fun _ _ => False) s := by
    simp only [readBlockNext, wp_bind, wp_get, hblock]
    refine wp_whileLoop (fun k v t => v.1.toNat = s.tempptr.toNat + k ∧ v.2.toNat = k ∧
      ∃ oob, (s.templen.toNat ≤ tempSize → oob = s.oob) ∧
        t = { s with ep0buf := s.ep0buf.write 0 (s.temp.read s.tempptr.toNat k), oob })
      n ?_ ?_ (by omega) ?_
    · rintro k hk ⟨i, j⟩ t ⟨hi, hj, oob, hoob, rfl⟩
      simp only at hi hj
      refine ⟨by rw [decide_eq_true_eq, BitVec.lt_def, hj, hn]; exact hk, ?_⟩
      have hep0 : ¬ ep0Size ≤ k := by simp only [ep0Size]; omega
      simp only [wp_bind, wp_temp, wp_setEp0buf, wp_pure, hi, hj, hep0, decide_false,
        Bool.or_false]
      have hstep := Mem.update_write s.ep0buf 0 (s.temp.read s.tempptr.toNat k)
        (s.temp (s.tempptr.toNat + k))
      rw [Mem.length_read, Nat.zero_add, ← Mem.read_succ] at hstep
      refine ⟨?_, ?_, oob || decide (tempSize ≤ s.tempptr.toNat + k), fun hfits => ?_,
        by rw [hstep]⟩
      · rw [toNat_succ (by omega), hi, Nat.add_assoc]
      · rw [toNat_succ (by omega), hj]
      · rw [hoob hfits, decide_eq_false (by omega), Bool.or_false]
    · rintro ⟨i, j⟩ t ⟨hi, hj, oob, hoob, rfl⟩
      simp only at hj
      refine ⟨by rw [decide_eq_false_iff_not, BitVec.lt_def, hj, hn]; omega, ?_⟩
      have hptr16 : s.tempptr + j.setWidth 16 = BitVec.ofNat 16 (s.tempptr.toNat + n) := by
        apply BitVec.eq_of_toNat_eq
        simp [hj]
      have hdone : s.templen - BitVec.ofNat 16 (s.tempptr.toNat + n) = 0 ↔
          s.templen.toNat = s.tempptr.toNat + n := by
        rw [sub_eq_zero, ← BitVec.toNat_inj, BitVec.toNat_ofNat, Nat.mod_eq_of_lt (by omega)]
      simp only [wp_modify, wp_setEp0bcl, wp_pure, hptr16, hdone]
      refine ⟨trivial, oob, hoob, ?_⟩
      split <;> rfl
    · have h0 : (toByte s.tempptr).toNat = s.tempptr.toNat := by
        simp [toByte]
        omega
      exact ⟨by simpa using h0, rfl, s.oob, fun _ => rfl, by simp⟩
  obtain ⟨b, t, hrun, rfl, oob, hoob, rfl⟩ := exists_run_of_wp h
  exact ⟨oob, hoob, hrun⟩

/-- A request with data outstanding, for a sequence that fits into `temp`. -/
theorem readBlockNext_run (hfuel : 65 ≤ fuel) (s : Fx2) (hlen : s.templen.toNat ≤ tempSize)
    (hptr : s.tempptr.toNat < s.templen.toNat) :
    let n := min 64 (s.templen.toNat - s.tempptr.toNat)
    let s' := { s with
      ep0buf := s.ep0buf.write 0 (s.temp.read s.tempptr.toNat n), ep0bcl := BitVec.ofNat 8 n }
    readBlockNext fuel s = .ok true
      (if s.templen.toNat = s.tempptr.toNat + n then { s' with tempptr := 0, templen := 0 }
        else { s' with tempptr := BitVec.ofNat 16 (s.tempptr.toNat + n) }) := by
  have hsize : tempSize ≤ 255 := by decide
  obtain ⟨oob, hoob, hrun⟩ := readBlockNext_ok fuel hfuel s (hlen.trans hsize) hptr
  obtain rfl := hoob hlen
  exact hrun

/-! ## Addressing the target -/

/-- What the bus sees when a target is addressed for a read and ACKs. -/
def addressEvents (addr cmd addr1 : Byte) : List Event :=
  [.start false, .sent addr (some .ack), .sent cmd (some .ack), .restart, .sent addr1 (some .ack)]

/-- The bytes that address a target for a read. -/
def readAddress : List Byte := [toByte smbAddr, toByte smbCmd, toByte (smbAddr + 1)]

/-- The target ACKs a byte in time. -/
def AcksByte (tr : List Event) (b : Byte) : Prop :=
  (T.out tr b).1 ≤ i2cTimeout ∧ (T.out tr b).2 = .ack

/-- The bus is free after the trace `tr`, and the target ACKs the bytes that address it for a
read. -/
structure AcksAddress (tr : List Event) : Prop where
  start : T.start tr = false
  write : AcksByte T (tr ++ [.start false]) (toByte smbAddr)
  command : AcksByte T (tr ++ [.start false, .sent (toByte smbAddr) (some .ack)]) (toByte smbCmd)
  read : AcksByte T (tr ++ [.start false, .sent (toByte smbAddr) (some .ack),
    .sent (toByte smbCmd) (some .ack), .restart]) (toByte (smbAddr + 1))

variable {T smbAddr smbCmd} in
/-- One that ACKs everything ACKs these. -/
theorem AcksAll.acksAddress (h : AcksAll T) (tr : List Event) :
    AcksAddress T smbAddr smbCmd tr :=
  ⟨h.start tr, h.out _ _, h.out _ _, h.out _ _⟩

variable {T} in
/-- One byte: it is ACKed, or it is the last one sent. -/
theorem i2cByteout_cases (b : Byte) (s : I2c) :
    (∃ s', i2cByteout T b s = (true, s') ∧ Extends s [.sent b (some .ack)] s' ∧
      s'.lastrdBit = s.lastrdBit) ∨
    ∃ s' ext, i2cByteout T b s = (false, s') ∧ Extends s ext s' ∧ sentBytes ext = [b] ∧
      s'.lastrdBit = s.lastrdBit ∧ ¬ AcksByte T s.trace b := by
  obtain ⟨a, ha, hext⟩ := i2cByteout_extends T b s
  by_cases hack : a = some .ack
  · subst hack
    exact .inl ⟨_, Prod.ext (by simpa using ha) rfl, by simpa using hext, by simp⟩
  · have hfalse : (i2cByteout T b s).1 = false := by simpa [hack] using ha
    refine .inr ⟨_, _, Prod.ext hfalse rfl, hext, ?_, by simp, fun hacks => ?_⟩
    · split <;> rfl
    · have htrue : (i2cByteout T b s).1 = true := by
        simp [i2cByteout, I2c.await, hacks.1, hacks.2]
      rw [htrue] at hfalse
      exact Bool.noConfusion hfalse

/-- A read request addresses the target, or fails on the way. -/
theorem wp_readBlockAddress {Q : Unit → Fx2 → Prop} {E : Label → Fx2 → Prop} (s : Fx2)
    (hfail : ∀ l ext b, ¬ AcksAddress T smbAddr smbCmd s.trace → Extends s.toI2c ext b →
      sentBytes ext <+: readAddress smbAddr smbCmd → E l { s with toI2c := b })
    (hok : ∀ k b, Extends s.toI2c (List.replicate k (.start true) ++
        addressEvents (toByte smbAddr) (toByte smbCmd) (toByte (smbAddr + 1))) b →
      b.lastrdBit = s.lastrdBit → (AcksAddress T smbAddr smbCmd s.trace → k = 0) →
        Q () { s with toI2c := b }) :
    wp (readBlockAddress T smbAddr smbCmd) Q E s := by
  simp only [readBlockAddress, wp_bind, wp_orGoto, wp_i2c, wp_i2cDo]
  obtain ⟨k, hstart⟩ := i2cStartTries_extends T i2cMaxRetries s.toI2c
  have hbit₀ := i2cStart_lastrdBit T s.toI2c
  have hfree : AcksAddress T smbAddr smbCmd s.trace →
      i2cStart T s.toI2c = (true, s.toI2c.log (.start false)) := by
    intro hA
    simp [i2cStart, i2cMaxRetries, i2cStartTries, hA.start]
  have hk : AcksAddress T smbAddr smbCmd s.trace → k = 0 := by
    intro hA
    have h := congrArg I2c.trace (congrArg Prod.snd (hfree hA))
    have hlen := congrArg List.length (hstart.symm.trans h)
    have hok := congrArg Prod.fst (hfree hA)
    rw [i2cStart] at hok
    rw [hok] at hlen
    simpa using hlen
  have hok₀ : (i2cStart T s.toI2c).1 = false → ¬ AcksAddress T smbAddr smbCmd s.trace := by
    intro h hA
    rw [hfree hA] at h
    exact Bool.noConfusion h
  rw [← i2cStart] at hstart
  generalize i2cStart T s.toI2c = r₀ at hstart hbit₀ hok₀ ⊢
  obtain ⟨ok₀, b₀⟩ := r₀
  cases ok₀ with
  | false =>
      simp only [Bool.false_eq_true, if_false, List.append_nil] at hstart ⊢
      exact hfail _ _ b₀ (hok₀ rfl) hstart (by simp)
  | true =>
  simp only [if_true] at hstart ⊢
  have htrace₀ : AcksAddress T smbAddr smbCmd s.trace → b₀.trace = s.trace ++ [.start false] := by
    intro hA
    obtain rfl := hk hA
    exact hstart
  rcases i2cByteout_cases (T := T) (toByte smbAddr) b₀ with
    ⟨b₁, h₁, hext₁, hbit₁⟩ | ⟨b₁, ext₁, h₁, hext₁, hsent₁, -, hno₁⟩
  swap
  · rw [h₁]
    refine hfail _ _ b₁ (fun hA => hno₁ ?_) (hstart.trans hext₁) ?_
    · rw [htrace₀ hA]
      exact hA.write
    · simp [hsent₁, readAddress]
  rw [h₁]
  simp only [if_true]
  have htrace₁ : AcksAddress T smbAddr smbCmd s.trace →
      b₁.trace = s.trace ++ [.start false, .sent (toByte smbAddr) (some .ack)] := by
    intro hA
    rw [hext₁, htrace₀ hA, List.append_assoc]
    rfl
  rcases i2cByteout_cases (T := T) (toByte smbCmd) b₁ with
    ⟨b₂, h₂, hext₂, hbit₂⟩ | ⟨b₂, ext₂, h₂, hext₂, hsent₂, -, hno₂⟩
  swap
  · rw [h₂]
    refine hfail _ _ b₂ (fun hA => hno₂ ?_) ((hstart.trans hext₁).trans hext₂) ?_
    · rw [htrace₁ hA]
      exact hA.command
    · simp [hsent₂, readAddress]
  rw [h₂]
  simp only [if_true]
  have hext₃ : Extends b₂ [.restart] (i2cRestart b₂) := rfl
  rcases i2cByteout_cases (T := T) (toByte (smbAddr + 1)) (i2cRestart b₂) with
    ⟨b₄, h₄, hext₄, hbit₄⟩ | ⟨b₄, ext₄, h₄, hext₄, hsent₄, -, hno₄⟩
  swap
  · rw [h₄]
    refine hfail _ _ b₄ (fun hA => hno₄ ?_)
      ((((hstart.trans hext₁).trans hext₂).trans hext₃).trans hext₄) ?_
    · rw [hext₃, hext₂, htrace₁ hA, List.append_assoc, List.append_assoc]
      exact hA.read
    · simp [hsent₄, readAddress]
  rw [h₄]
  simp only [if_true]
  refine hok k b₄ ?_ (hbit₄.trans (hbit₂.trans (hbit₁.trans hbit₀))) hk
  have h := (((hstart.trans hext₁).trans hext₂).trans hext₃).trans hext₄
  simpa [addressEvents] using h

/-! ## Reading a block, with any target -/

/-- Reading sends nothing, stays inside the arrays, and keeps the cursors. -/
structure ReadKeeps (s s' : Fx2) : Prop where
  quiet : Quiet s.toI2c s'.toI2c
  oob : s'.oob = s.oob
  templen : s'.templen = s.templen
  tempptr : s'.tempptr = s.tempptr

theorem ReadKeeps.trans {s s' s'' : Fx2} (h : ReadKeeps s s') (h' : ReadKeeps s' s'') :
    ReadKeeps s s'' :=
  ⟨h.quiet.trans h'.quiet, h'.oob.trans h.oob, h'.templen.trans h.templen,
    h'.tempptr.trans h.tempptr⟩

theorem wp_readBlockTurn_any (v : ReadVars) (s : Fx2) :
    wp (readBlockTurn T v)
      (fun v' s' => v'.i = v.i + 1 ∧ (v.i ≠ 0 → v'.blocklen = v.blocklen) ∧ ReadKeeps s s')
      (fun _ s' => ReadKeeps s s') s := by
  simp only [readBlockTurn, wp_bind, wp_i2c, wp_ite, wp_goto]
  have hquiet := quiet_bytein T (v.i == 0) false (v.i.toNat + 2 == v.blocklen.toNat)
    (v.i.toNat + 1 == v.blocklen.toNat) s.toI2c
  generalize i2cBytein T (v.i == 0) false (v.i.toNat + 2 == v.blocklen.toNat)
    (v.i.toNat + 1 == v.blocklen.toNat) s.toI2c = r at hquiet ⊢
  obtain ⟨b, s'⟩ := r
  split
  · exact ⟨hquiet, rfl, rfl, rfl⟩
  · simp only [wp_get, wp_setEp0buf, wp_setTemp, wp_pure]
    generalize hL : (if v.i = 0 then b + 2 else v.blocklen) = L
    have hkeep : v.i ≠ 0 → L = v.blocklen := by
      intro h
      rw [← hL, if_neg h]
    have hlt := L.isLt
    split
    · next hstore =>
      have htemp : ¬ tempSize ≤ v.i.toNat - 64 := by simp only [tempSize]; omega
      split
      · next h64 =>
        have hep0 : ¬ ep0Size ≤ v.i.toNat := by
          rw [BitVec.lt_def] at h64
          simpa [ep0Size] using h64
        exact ⟨trivial, hkeep, hquiet, by simp [hep0], rfl, rfl⟩
      · exact ⟨trivial, hkeep, hquiet, by simp [htemp], rfl, rfl⟩
    · exact ⟨trivial, hkeep, hquiet, rfl, rfl, rfl⟩

/-- Reading a block sends nothing, stays inside the arrays, and leaves the cursors as
they were or the length of what is in `temp`. -/
structure ReadEnds (s s' : Fx2) : Prop where
  quiet : Quiet s.toI2c s'.toI2c
  oob : s'.oob = s.oob
  cursors : s'.templen = s.templen ∧ s'.tempptr = s.tempptr ∨
    s'.tempptr = 0 ∧ s'.templen.toNat ≤ tempSize

theorem ReadKeeps.ends {s s' : Fx2} (h : ReadKeeps s s') : ReadEnds s s' :=
  ⟨h.quiet, h.oob, .inl ⟨h.templen, h.tempptr⟩⟩

theorem readBlockData_any (hfuel : 256 ≤ fuel) (s : Fx2) :
    wp (readBlockData T fuel smbAddr smbCmd) (fun _ s' => ReadEnds s s') (fun _ s' => ReadEnds s s')
      s := by
  obtain ⟨fuel, rfl⟩ : ∃ f, fuel = f + 1 := ⟨fuel - 1, by omega⟩
  simp only [readBlockData, wp_bind, wp_get, wp_whileLoop_succ]
  rw [if_pos (show decide ((0 : Byte) < 255) = true from rfl)]
  refine wp_mono (wp_readBlockTurn_any T _ s) ?_ (fun _ _ h => h.ends)
  rintro ⟨i, L, pec, rpec⟩ s₁ ⟨rfl, -, h₁⟩
  -- From the second turn on the length is fixed.
  refine wp_whileLoop (fun k v t => v.i.toNat = 1 + k ∧ v.blocklen = L ∧ ReadKeeps s t)
    (L.toNat - 1) ?_ ?_ (by omega) ⟨rfl, rfl, h₁⟩
  · rintro k hk v t ⟨hi, hL, ht⟩
    have hlt := L.isLt
    refine ⟨by rw [decide_eq_true_eq, BitVec.lt_def, hi, hL]; omega, ?_⟩
    have hne : v.i ≠ 0 := by
      intro h
      rw [h] at hi
      simp at hi
      omega
    refine wp_mono (wp_readBlockTurn_any T v t) ?_ (fun _ _ h => (ht.trans h).ends)
    rintro v' t' ⟨hi', hL', ht'⟩
    exact ⟨by rw [hi', toNat_succ (by omega), hi]; omega, (hL' hne).trans hL, ht.trans ht'⟩
  · rintro v t ⟨hi, hL, ht⟩
    have hlt := L.isLt
    refine ⟨by rw [decide_eq_false_iff_not, BitVec.lt_def, hi, hL]; omega, ?_⟩
    simp only [wp_modify, wp_ite, wp_bind, wp_goto, wp_setEp0bcl, wp_pure, hL]
    have hends : ReadEnds s (if 65 < L.toNat then
        { t with templen := L.setWidth 16 - 65, tempptr := 0, count := 0 } else t) := by
      split
      · next hlong =>
        refine ⟨ht.quiet, ht.oob, .inr ⟨rfl, ?_⟩⟩
        simp [tempSize]
        omega
      · exact ht.ends
    generalize (if 65 < L.toNat then
        { t with templen := L.setWidth 16 - 65, tempptr := 0, count := 0 } else t) = t' at hends ⊢
    split
    · exact ⟨hends.quiet, hends.oob, hends.cursors⟩
    · exact ⟨hends.quiet, hends.oob, hends.cursors⟩

theorem ReadEnds.trans {s s' s'' : Fx2} (h : ReadEnds s s') (h' : ReadKeeps s' s'') :
    ReadEnds s s'' := by
  refine ⟨h.quiet.trans h'.quiet, h'.oob.trans h.oob, ?_⟩
  rw [h'.templen, h'.tempptr]
  exact h.cursors

theorem ReadEnds.inBounds {s s' : Fx2} (h : ReadEnds s s') (hs : s.InBounds) : s'.InBounds := by
  refine ⟨?_, ?_, h.oob.trans hs.oob⟩
  · rcases h.cursors with ⟨h1, h2⟩ | ⟨h1, -⟩
    · rw [h1, h2]
      exact hs.ptr
    · simp [h1]
  · rcases h.cursors with ⟨h1, -⟩ | ⟨-, h2⟩
    · rw [h1]
      exact hs.len
    · exact h2

theorem wp_readBlockFail (l : Label) (s : Fx2) :
    wp (readBlockFail T l) (fun ok s' => ok = false ∧ ReadKeeps s s') (fun _ _ => False) s := by
  simp only [readBlockFail, wp_bind, wp_ite, wp_i2cDo, wp_setEp0bcl, wp_pure]
  split
  · exact ⟨trivial, quiet_stop T s.toI2c, rfl, rfl, rfl⟩
  · exact ⟨trivial, Quiet.refl s.toI2c, rfl, rfl, rfl⟩

/-- What a request does, with any target: it sends no byte but its address and its
command, and keeps the cursors inside `temp`. -/
theorem readBlock_any (hfuel : 256 ≤ fuel) (s : Fx2) (hs : s.InBounds) :
    ∃ ok s' ext, readBlock T fuel smbAddr smbCmd s = .ok ok s' ∧ s'.InBounds ∧
      Extends s.toI2c ext s'.toI2c ∧ sentBytes ext <+: readAddress smbAddr smbCmd := by
  have hexp := hs.expire
  have hstart : s.expire.toI2c = s.toI2c := Fx2.expire_toI2c
  have h : wp (readBlock T fuel smbAddr smbCmd) (fun _ s' => s'.InBounds ∧
      ∃ ext, Extends s.toI2c ext s'.toI2c ∧ sentBytes ext <+: readAddress smbAddr smbCmd)
      (fun _ _ => False) s := by
    simp only [readBlock, expireSeq, wp_bind, wp_modify, wp_get]
    rw [wp_ite]
    split
    · next hpos =>
      have hlt : s.expire.tempptr.toNat < s.expire.templen.toNat := by
        refine Nat.lt_of_le_of_ne hexp.ptr fun heq => ?_
        rw [BitVec.toNat_inj] at heq
        simp [heq] at hpos
      have hlen : s.expire.templen.toNat ≤ 192 := hexp.len
      rw [wp_of_run (readBlockNext_run fuel (by omega) s.expire hexp.len hlt)]
      split
      · exact ⟨⟨Nat.le_refl _, Nat.zero_le _, hexp.oob⟩, [], by simp [Extends], by simp⟩
      · refine ⟨⟨?_, hexp.len, hexp.oob⟩, [], by simp [Extends], by simp⟩
        simp
        omega
    · simp only [wp_labels, readBlockFresh, wp_bind]
      have hends : ∀ ext b s', Extends s.toI2c ext b →
        sentBytes ext <+: readAddress smbAddr smbCmd →
          ReadEnds { s.expire with toI2c := b } s' → s'.InBounds ∧
          ∃ ext, Extends s.toI2c ext s'.toI2c ∧ sentBytes ext <+: readAddress smbAddr smbCmd := by
        intro ext b s' hext hsent hs'
        obtain ⟨ext', hext', hnil⟩ := hs'.quiet
        exact ⟨hs'.inBounds ⟨hexp.ptr, hexp.len, hexp.oob⟩, ext ++ ext', hext.trans hext',
          by rwa [sentBytes_append, hnil, List.append_nil]⟩
      refine wp_readBlockAddress T smbAddr smbCmd _ ?_ ?_
      · intro l ext b _ hext hsent
        rw [hstart] at hext
        refine wp_mono (wp_readBlockFail T l _) ?_ (fun _ _ h => h)
        rintro _ s' ⟨-, hkeep⟩
        exact hends ext b s' hext hsent hkeep.ends
      · intro k b hext _ _
        rw [hstart] at hext
        have hsent : sentBytes (List.replicate k (.start true) ++ addressEvents (toByte smbAddr)
            (toByte smbCmd) (toByte (smbAddr + 1))) <+: readAddress smbAddr smbCmd := by
          simp [addressEvents, readAddress]
        refine wp_mono (readBlockData_any T fuel smbAddr smbCmd hfuel _) ?_ ?_
        · intro _ s' hs'
          exact hends _ b s' hext hsent hs'
        · intro l s' hs'
          refine wp_mono (wp_readBlockFail T l s') ?_ (fun _ _ h => h)
          rintro _ s'' ⟨-, hkeep⟩
          exact hends _ b s'' hext hsent (hs'.trans hkeep)
  obtain ⟨ok, s', hrun, hin, ext, hext, hsent⟩ := exists_run_of_wp h
  exact ⟨ok, s', ext, hrun, hin, hext, hsent⟩

end

end Smbusb
