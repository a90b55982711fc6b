import Smbusb.Firmware.Sending

/-!
# Block writes in the firmware

What one `WRITE_BLOCK` request does, for every target.

A block of up to 63 bytes comes in one request and is sent from `EP0BUF`
(`writeBlockSendEp0_run`).  A longer one comes in several.  The first opens a
sequence (`writeBlockOpen_run`), the later ones are stored behind it, and the one
that completes it sends the block from `temp` (`writeBlockSendTemp_run`).  Both
send paths are `sendFrame` of the same frame, so the PEC, the failure labels and
the STOP are the same in both.
-/

namespace Smbusb

open Logic Prog Fw Handler

/-- The bytes of a block write: address, command, count and data, and the PEC when
it is on. -/
def blockFrame (pec : Bool) (addr cmd count : Byte) (data : List Byte) : List Byte :=
  addr :: cmd :: count :: data ++ if pec then [crc8 (addr :: cmd :: count :: data)] else []

theorem length_blockFrame (pec : Bool) (addr cmd count : Byte) (data : List Byte) :
    (blockFrame pec addr cmd count data).length = data.length + 3 + pec.toNat := by
  cases pec <;> simp [blockFrame]

/-! ## The send loops -/

/-- Send the cells a reader gives, one by one.  `G` is what is kept about `oob`. -/
theorem wp_sendLoop {T : Target} {s : Fx2} {b₀ : I2c} {o₀ : Bool} {bs : List Byte} {pec₀ : Byte}
    (G : Bool → Prop) {cond : Byte × Byte → Fx2 → Bool} {rd : Nat → Fw Byte}
    {body : Byte × Byte → Fw (Byte × Byte)} {fuel : Nat}
    {Q : Byte × Byte → Fx2 → Prop} {E : Label → Fx2 → Prop}
    (hlen : bs.length < 256) (hfuel : bs.length < fuel)
    (hcond : ∀ v b o, cond v { s with toI2c := b, oob := o } = decide (v.1.toNat < bs.length))
    (hbody : ∀ i pec, body (i, pec) = (do
      let b ← rd i.toNat
      orGoto (i2c (i2cByteout T b)) .wlfail
      return (i + 1, if (← get).pecEnabled then pecCrc pec b else pec)))
    (hrd : ∀ k x, bs[k]? = some x → ∀ b o, G o → ∃ o', G o' ∧
      rd k { s with toI2c := b, oob := o } = .ok x { s with toI2c := b, oob := o' })
    (ho : G o₀)
    (hQ : ∀ i b o, sendAll T bs b₀ = (true, b) → G o →
      Q (i, if s.pecEnabled then bs.foldl pecCrc pec₀ else pec₀) { s with toI2c := b, oob := o })
    (hE : ∀ b o, sendAll T bs b₀ = (false, b) → G o → E .wlfail { s with toI2c := b, oob := o }) :
    wp (whileLoop cond body fuel (0, pec₀)) Q E { s with toI2c := b₀, oob := o₀ } := by
  -- After `k` turns the first `k` bytes were sent, each of them ACKed.
  refine wp_whileLoop (fun k v s' => v.1.toNat = k ∧ ∃ b o, sendAll T (bs.take k) b₀ = (true, b) ∧
    G o ∧ s' = { s with toI2c := b, oob := o } ∧
    v.2 = if s.pecEnabled then (bs.take k).foldl pecCrc pec₀ else pec₀) bs.length ?_ ?_ hfuel ?_
  · rintro k hk ⟨i, pec⟩ s' ⟨hi, b, o, hb, hG, rfl, hpec⟩
    simp only at hi hpec
    subst hi
    refine ⟨by simpa [hcond] using hk, ?_⟩
    have hx : bs[i.toNat]? = some bs[i.toNat] := List.getElem?_eq_getElem hk
    obtain ⟨o', hG', hr⟩ := hrd i.toNat _ hx b o hG
    have hi : (i + 1).toNat = i.toNat + 1 := toNat_succ (by omega)
    have htake : bs.take (i.toNat + 1) = bs.take i.toNat ++ [bs[i.toNat]] := by simp
    rw [hbody, wp_bind, wp_of_run hr]
    have hsend : sendAll T (bs.take (i.toNat + 1)) b₀ = sendAll T [bs[i.toNat]] b := by
      rw [htake, sendAll_append, hb]
      rfl
    cases hout : i2cByteout T bs[i.toNat] b with
    | mk ack b' =>
        cases ack with
        | true =>
            simp only [wp_bind, wp_orGoto, wp_i2c, hout, if_true, wp_get, wp_pure]
            refine ⟨hi, b', o', ?_, hG', rfl, ?_⟩
            · rw [hsend]
              simp [sendAll, hout]
            · rw [htake, List.foldl_append, hpec]
              split <;> rfl
        | false =>
            simp only [wp_bind, wp_orGoto, wp_i2c, hout, Bool.false_eq_true, if_false]
            refine hE b' o' ?_ hG'
            have hfail : sendAll T (bs.take (i.toNat + 1)) b₀ = (false, b') := by
              rw [hsend]
              simp [sendAll, hout]
            have := sendAll_append (T := T) (bs.take (i.toNat + 1)) (bs.drop (i.toNat + 1)) b₀
            rw [List.take_append_drop, hfail] at this
            simpa using this
  · rintro ⟨i, pec⟩ s' ⟨hi, b, o, hb, hG, rfl, hpec⟩
    rw [List.take_length] at hb hpec
    simp only at hi hpec
    subst hpec
    exact ⟨by simp [hcond, hi], hQ i b o hb hG⟩
  · exact ⟨rfl, b₀, o₀, by simp [sendAll], ho, rfl, by simp⟩

/-! ## One request -/

section

variable (T : Target) (fuel : Nat) (smbAddr smbCmd : Word)

/-- Both send paths send the frame, and do `done` if it was ACKed throughout. -/
theorem wp_sendBlock (s : Fx2) (bs : List Byte) (count : Fx2 → Byte)
    (more : Byte → Fx2 → Bool) (cell : Nat → Fw Byte) (done : Fx2 → Fx2) (G : Bool → Prop)
    (hlen : bs.length < 256) (hfuel : bs.length < fuel)
    (hcount : ∀ b, count { s with toI2c := b } = count s)
    (hmore : ∀ i b o, more i { s with toI2c := b, oob := o } = decide (i.toNat < bs.length))
    (hcell : ∀ k x, bs[k]? = some x → ∀ b o, G o → ∃ o', G o' ∧
      cell k { s with toI2c := b, oob := o } = .ok x { s with toI2c := b, oob := o' })
    (ho : G s.oob) :
    let r := sendFrame T (blockFrame s.pecEnabled (toByte smbAddr) (toByte smbCmd) (count s) bs)
      s.toI2c
    wp (labels (sendBlock T fuel smbAddr smbCmd count more cell done) fun _ => stopFail T)
      (fun ok s' => ok = r.1 ∧ ∃ o, G o ∧
        s' = if r.1 then done { s with toI2c := r.2, oob := o }
          else { s with toI2c := r.2, oob := o })
      (fun _ _ => False) s := by
  intro r
  obtain ⟨frame, hframe⟩ : ∃ frame,
      frame = blockFrame s.pecEnabled (toByte smbAddr) (toByte smbCmd) (count s) bs := ⟨_, rfl⟩
  have hr : r = sendFrame T frame s.toI2c := by rw [hframe]
  simp only [sendBlock, stopFail, wp_labels, wp_bind, wp_orGoto, wp_i2c, wp_i2cDo, wp_get, wp_pure,
    hcount]
  cases hstart : i2cStart T s.toI2c with
  | mk ok b₀ =>
  cases ok with
  | false =>
      have hr : r = (false, i2cStop T b₀) := by simp [hr, sendFrame, hstart]
      simp only [Bool.false_eq_true, if_false, hr]
      exact ⟨trivial, s.oob, ho, rfl⟩
  | true =>
  -- Every later jump is made after a beginning of the frame failed.
  have hfail : ∀ pre b', pre <+: frame → sendAll T pre b₀ = (false, b') →
      r = (false, i2cStop T b') := by
    intro pre b' hpre h
    simp [hr, sendFrame, hstart, sendAll_of_fail hpre h]
  cases haddr : i2cByteout T (toByte smbAddr) b₀ with
  | mk ok b₁ =>
  cases ok with
  | false =>
      have hr := hfail [toByte smbAddr] b₁ (by simp [hframe, blockFrame]) (by simp [sendAll, haddr])
      simp only [Bool.false_eq_true, if_true, if_false, hr]
      exact ⟨trivial, s.oob, ho, rfl⟩
  | true =>
  cases hcmd : i2cByteout T (toByte smbCmd) b₁ with
  | mk ok b₂ =>
  cases ok with
  | false =>
      have hr := hfail [toByte smbAddr, toByte smbCmd] b₂ (by simp [hframe, blockFrame])
        (by simp [sendAll, haddr, hcmd])
      simp only [Bool.false_eq_true, if_true, if_false, hr]
      exact ⟨trivial, s.oob, ho, rfl⟩
  | true =>
  cases hcnt : i2cByteout T (count s) b₂ with
  | mk ok b₃ =>
  cases ok with
  | false =>
      have hr := hfail [toByte smbAddr, toByte smbCmd, count s] b₃ (by simp [hframe, blockFrame])
        (by simp [sendAll, haddr, hcmd, hcnt])
      simp only [Bool.false_eq_true, if_true, if_false, hr]
      exact ⟨trivial, s.oob, ho, rfl⟩
  | true =>
  have hhead : sendAll T [toByte smbAddr, toByte smbCmd, count s] b₀ = (true, b₃) := by
    simp [sendAll, haddr, hcmd, hcnt]
  simp only [if_true]
  refine wp_sendLoop G hlen hfuel (fun v b o => hmore v.1 b o) (fun i pec => rfl) hcell ho ?_ ?_
  · intro i b o hb hG
    have hbody : sendAll T (toByte smbAddr :: toByte smbCmd :: count s :: bs) b₀ = (true, b) := by
      have := sendAll_append (T := T) [toByte smbAddr, toByte smbCmd, count s] bs b₀
      simpa [hhead, hb] using this
    cases hp : s.pecEnabled with
    | false =>
        have hr : r = (true, i2cStop T b) := by
          simp [hr, sendFrame, hstart, hframe, blockFrame, hp, hbody]
        simp only [Bool.false_eq_true, if_false, wp_bind, wp_i2cDo, wp_modify, wp_pure, hr, if_true]
        exact ⟨trivial, o, hG, rfl⟩
    | true =>
        have hpec : bs.foldl pecCrc
            (pecCrc (pecCrc (pecCrc 0 (toByte smbAddr)) (toByte smbCmd)) (count s)) =
            crc8 (toByte smbAddr :: toByte smbCmd :: count s :: bs) := rfl
        simp only [if_true, hpec, wp_bind, wp_orGoto, wp_i2c, wp_i2cDo, wp_modify, wp_pure]
        have hframe' : frame = (toByte smbAddr :: toByte smbCmd :: count s :: bs) ++
            [crc8 (toByte smbAddr :: toByte smbCmd :: count s :: bs)] := by
          simp [hframe, blockFrame, hp]
        cases hlast : i2cByteout T (crc8 (toByte smbAddr :: toByte smbCmd :: count s :: bs)) b with
        | mk ok b₄ =>
        cases ok with
        | false =>
            have hr := hfail frame b₄ (List.prefix_refl _)
              (by rw [hframe', sendAll_append, hbody]; simp [sendAll, hlast])
            simp only [Bool.false_eq_true, if_false, hr]
            exact ⟨trivial, o, hG, rfl⟩
        | true =>
            have hr : r = (true, i2cStop T b₄) := by
              rw [hr, hframe']
              simp only [sendFrame, hstart, if_true, sendAll_append, hbody]
              simp [sendAll, hlast]
            simp only [if_true, hr]
            exact ⟨trivial, o, hG, rfl⟩
  · intro b o hb hG
    have hbody : sendAll T (toByte smbAddr :: toByte smbCmd :: count s :: bs) b₀ = (false, b) := by
      have := sendAll_append (T := T) [toByte smbAddr, toByte smbCmd, count s] bs b₀
      simpa [hhead, hb] using this
    rw [hfail _ b ⟨_, hframe.symm⟩ hbody]
    exact ⟨rfl, o, hG, rfl⟩

/-- The request that brings a whole block: the block is sent from `EP0BUF`. -/
theorem writeBlockSendEp0_run (hfuel : 256 ≤ fuel) (s : Fx2) :
    let r := sendFrame T (blockFrame s.pecEnabled (toByte smbAddr) (toByte smbCmd) (s.ep0buf 0)
      (s.ep0buf.read 1 (s.ep0buf 0).toNat)) s.toI2c
    ∃ o, (s.oob = true → o = true) ∧ ((s.ep0buf 0).toNat < 64 → o = s.oob) ∧
      labels (writeBlockSendEp0 T fuel smbAddr smbCmd) (fun _ => stopFail T) s =
        .ok r.1 { s with toI2c := r.2, oob := o } := by
  intro r
  have hcount := (s.ep0buf 0).isLt
  have h := wp_sendBlock T fuel smbAddr smbCmd s (s.ep0buf.read 1 (s.ep0buf 0).toNat)
    (fun s => s.ep0buf 0) (fun i s => i < s.ep0buf 0) (fun i => ep0buf (1 + i)) id
    (fun o => (s.oob = true → o = true) ∧ ((s.ep0buf 0).toNat < 64 → o = s.oob))
    (by simpa using hcount) (by simp; omega) (fun _ => rfl)
    (fun i b o => by simp [BitVec.lt_def]) ?_ ⟨fun h => h, fun _ => rfl⟩
  · obtain ⟨b, s', hrun, rfl, o, ⟨h1, h2⟩, rfl⟩ := exists_run_of_wp h
    refine ⟨o, h1, h2, ?_⟩
    simpa [writeBlockSendEp0, r] using hrun
  · rintro k x hx b o ⟨h1, h2⟩
    have hk : k < (s.ep0buf 0).toNat := by
      simpa using (List.getElem?_eq_some_iff.mp hx).1
    rw [Mem.getElem?_read _ hk, Option.some.injEq] at hx
    refine ⟨o || decide (ep0Size ≤ 1 + k), ⟨fun h => by simp [h1 h], fun h => ?_⟩, ?_⟩
    · have : ¬ ep0Size ≤ 1 + k := by simp only [ep0Size]; omega
      simp [h2 h, this]
    · rw [← hx]
      rfl

/-- The request that completes a sequence: the block is sent from `temp`. -/
theorem writeBlockSendTemp_run (hfuel : 256 ≤ fuel) (s : Fx2) (hlen : s.templen.toNat < 256) :
    let r := sendFrame T (blockFrame s.pecEnabled (toByte smbAddr) (toByte smbCmd)
      (toByte s.templen) (s.temp.read 0 s.templen.toNat)) s.toI2c
    ∃ o, (s.oob = true → o = true) ∧ (s.templen.toNat ≤ tempSize → o = s.oob) ∧
      labels (writeBlockSendTemp T fuel smbAddr smbCmd) (fun _ => stopFail T) s =
        .ok r.1 (if r.1 then { s with toI2c := r.2, oob := o, tempptr := 0, templen := 0 }
          else { s with toI2c := r.2, oob := o }) := by
  intro r
  have h := wp_sendBlock T fuel smbAddr smbCmd s (s.temp.read 0 s.templen.toNat)
    (fun s => toByte s.templen) (fun i s => i.setWidth 16 < s.templen) temp
    (fun s => { s with tempptr := 0, templen := 0 })
    (fun o => (s.oob = true → o = true) ∧ (s.templen.toNat ≤ tempSize → o = s.oob))
    (by simpa using hlen) (by simp; omega) (fun _ => rfl) ?_ ?_ ⟨fun h => h, fun _ => rfl⟩
  · obtain ⟨b, s', hrun, rfl, o, ⟨h1, h2⟩, rfl⟩ := exists_run_of_wp h
    exact ⟨o, h1, h2, hrun⟩
  · intro i b o
    have hi := i.isLt
    simp [BitVec.lt_def]
    omega
  · rintro k x hx b o ⟨h1, h2⟩
    have hk : k < s.templen.toNat := by
      simpa using (List.getElem?_eq_some_iff.mp hx).1
    rw [Mem.getElem?_read _ hk, Option.some.injEq] at hx
    refine ⟨o || decide (tempSize ≤ k), ⟨fun h => by simp [h1 h], fun h => ?_⟩, ?_⟩
    · have : ¬ tempSize ≤ k := by omega
      simp [h2 h, this]
    · rw [← hx, Nat.zero_add]
      rfl

/-- The request that opens a sequence stores its 63 data bytes. -/
theorem writeBlockOpen_run (hfuel : 64 ≤ fuel) (s : Fx2) :
    writeBlockOpen fuel s = .ok true { s with
      templen := (s.ep0buf 0).setWidth 16, tempptr := 63,
      temp := s.temp.write 0 (s.ep0buf.read 1 63), count := 0 } := by
  have h : wp (writeBlockOpen fuel) (fun ok s' => ok = true ∧ s' = { s with
      templen := (s.ep0buf 0).setWidth 16, tempptr := 63,
      temp := s.temp.write 0 (s.ep0buf.read 1 63), count := 0 }) (fun _ _ => False) s := by
    have hoob : (s.oob || decide (ep0Size ≤ 0)) = s.oob := by simp [ep0Size]
    simp only [writeBlockOpen, wp_bind, wp_ep0buf, wp_modify, wp_pure, hoob]
    refine wp_whileLoop (fun k _ s' => s' = { s with
      templen := (s.ep0buf 0).setWidth 16, tempptr := BitVec.ofNat 16 k,
      temp := s.temp.write 0 (s.ep0buf.read 1 k) }) 63 ?_ ?_ (by omega) ?_
    · rintro k hk - s' rfl
      have hp : (BitVec.ofNat 16 k).toNat = k := by simp; omega
      have hep0 : ¬ ep0Size ≤ 1 + k := by simp only [ep0Size]; omega
      have htemp : ¬ tempSize ≤ k := by simp only [tempSize]; omega
      refine ⟨by simp [BitVec.lt_def, hp, hk], ?_⟩
      simp only [wp_bind, wp_get, wp_ep0buf, wp_setTemp, wp_modify, hp, hep0, htemp, decide_false,
        Bool.or_false]
      have := Mem.update_write s.temp 0 (s.ep0buf.read 1 k) (s.ep0buf (1 + k))
      rw [Mem.length_read, Nat.zero_add, ← Mem.read_succ] at this
      rw [this,
        show BitVec.ofNat 16 k + 1 = BitVec.ofNat 16 (k + 1) from (BitVec.ofNat_add ..).symm]
    · rintro - s' rfl
      exact ⟨rfl, trivial, rfl⟩
    · simp
  obtain ⟨b, s', hrun, rfl, rfl⟩ := exists_run_of_wp h
  exact hrun

/-- A request inside a sequence stores what is missing, 64 bytes at most. -/
theorem writeBlockStore_run (hfuel : 65 ≤ fuel) (s : Fx2) (hlen : s.templen.toNat < 256)
    (hptr : s.tempptr.toNat < s.templen.toNat) :
    let n := min 64 (s.templen.toNat - s.tempptr.toNat)
    writeBlockStore fuel s = .ok () { s with
      tempptr := BitVec.ofNat 16 (s.tempptr.toNat + n),
      temp := s.temp.write s.tempptr.toNat (s.ep0buf.read 0 n),
      oob := s.oob || decide (tempSize < s.tempptr.toNat + n) } := by
  intro n
  have hsub : (s.templen - s.tempptr).toNat = s.templen.toNat - s.tempptr.toNat := by
    rw [BitVec.toNat_sub_of_le (by rw [BitVec.le_def]; omega)]
  have hblock : (if 64 < s.templen - s.tempptr then (64 : Byte)
      else toByte (s.templen - s.tempptr)).toNat = n := by
    split
    · next h => rw [BitVec.lt_def, hsub] at h; simp [n] at h ⊢; omega
    · next h =>
      rw [BitVec.lt_def, hsub] at h
      simp [n, toByte, hsub] at h ⊢
      omega
  have hn : n ≤ 64 := by omega
  have hlt : s.tempptr < s.templen := by rw [BitVec.lt_def]; exact hptr
  have h : wp (writeBlockStore fuel) (fun _ s' => s' = { s with
      tempptr := BitVec.ofNat 16 (s.tempptr.toNat + n),
      temp := s.temp.write s.tempptr.toNat (s.ep0buf.read 0 n),
      oob := s.oob || decide (tempSize < s.tempptr.toNat + n) }) (fun _ _ => False) s := by
    simp only [writeBlockStore, wp_bind, wp_get, hlt, if_true]
    refine wp_whileLoop (fun k v s' => v.1.toNat = k ∧ v.2.toNat = s.tempptr.toNat + k ∧
      s' = { s with
      temp := s.temp.write s.tempptr.toNat (s.ep0buf.read 0 k),
      oob := s.oob || decide (0 < k ∧ tempSize < s.tempptr.toNat + k) }) n ?_ ?_ (by omega) ?_
    · rintro k hk ⟨i, j⟩ s' ⟨hi, hj, rfl⟩
      simp only at hi hj
      refine ⟨by rw [decide_eq_true_eq, BitVec.lt_def, hi, hblock]; exact hk, ?_⟩
      have hep0 : ¬ ep0Size ≤ k := by simp only [ep0Size]; omega
      simp only [wp_bind, wp_ep0buf, wp_setTemp, wp_pure, hi, hj, hep0, decide_false, Bool.or_false]
      have hstep := Mem.update_write s.temp s.tempptr.toNat (s.ep0buf.read 0 k) (s.ep0buf k)
      have hread := Mem.read_succ s.ep0buf 0 k
      rw [Nat.zero_add] at hread
      rw [Mem.length_read, ← hread] at hstep
      refine ⟨?_, ?_, ?_⟩
      · rw [toNat_succ (by omega), hi]
      · rw [toNat_succ (by omega), hj, Nat.add_assoc]
      · rw [hstep, Bool.or_assoc, ← Bool.decide_or]
        congr 3
        simp only [tempSize, eq_iff_iff]
        omega
    · rintro ⟨i, j⟩ s' ⟨hi, hj, rfl⟩
      simp only at hi
      refine ⟨by rw [decide_eq_false_iff_not, BitVec.lt_def, hi, hblock]; omega, ?_⟩
      have hi16 : s.tempptr + i.setWidth 16 = BitVec.ofNat 16 (s.tempptr.toNat + n) := by
        apply BitVec.eq_of_toNat_eq
        simp [hi]
      have hpos : (0 < n ∧ tempSize < s.tempptr.toNat + n) ↔ tempSize < s.tempptr.toNat + n := by
        omega
      simp only [wp_modify, hi16, hpos]
    · have h0 : (toByte s.tempptr).toNat = s.tempptr.toNat := by
        simp [toByte]
        omega
      exact ⟨rfl, by simpa using h0, by simp⟩
  obtain ⟨b, s', hrun, rfl⟩ := exists_run_of_wp h
  exact hrun

/-! ## The four kinds of request -/

/-- The handler decides on the state in which a sequence that is too old is gone. -/
theorem writeBlock_eq (s : Fx2) :
    writeBlock T fuel smbAddr smbCmd s =
      (if s.expire.templen = 0 ∧ 64 < s.expire.ep0buf 0 then writeBlockOpen fuel
      else if 0 < s.expire.templen then do
        writeBlockStore fuel
        let s ← get
        if s.tempptr = s.templen then
          labels (writeBlockSendTemp T fuel smbAddr smbCmd) fun _ => stopFail T
        else return true
      else labels (writeBlockSendEp0 T fuel smbAddr smbCmd) fun _ => stopFail T) s.expire := rfl

/-- No sequence is live, and the block does not fit into the request. -/
theorem writeBlock_opens (hfuel : 256 ≤ fuel) (s : Fx2) (hidle : s.expire.templen = 0)
    (hbig : 64 < (s.ep0buf 0).toNat) :
    writeBlock T fuel smbAddr smbCmd s = .ok true { s with
      templen := (s.ep0buf 0).setWidth 16, tempptr := 63,
      temp := s.temp.write 0 (s.ep0buf.read 1 63), count := 0 } := by
  have hbig' : 64 < s.expire.ep0buf 0 := by
    rw [Fx2.expire_ep0buf, BitVec.lt_def]
    exact hbig
  rw [writeBlock_eq, if_pos ⟨hidle, hbig'⟩, writeBlockOpen_run fuel (by omega)]
  simp only [Fx2.expire]
  split <;> rfl

/-- No sequence is live, and the block is at most 64 bytes long. -/
theorem writeBlock_sends (hfuel : 256 ≤ fuel) (s : Fx2) (hidle : s.expire.templen = 0)
    (hsmall : (s.ep0buf 0).toNat ≤ 64) :
    let r := sendFrame T (blockFrame s.pecEnabled (toByte smbAddr) (toByte smbCmd) (s.ep0buf 0)
      (s.ep0buf.read 1 (s.ep0buf 0).toNat)) s.toI2c
    ∃ o, (s.oob = true → o = true) ∧ ((s.ep0buf 0).toNat < 64 → o = s.oob) ∧
      writeBlock T fuel smbAddr smbCmd s =
        .ok r.1 { s.expire with toI2c := r.2, oob := o } := by
  have hsmall' : ¬ 64 < s.expire.ep0buf 0 := by
    rw [Fx2.expire_ep0buf, BitVec.lt_def]
    exact Nat.not_lt.mpr hsmall
  have h := writeBlockSendEp0_run T fuel smbAddr smbCmd hfuel s.expire
  rw [writeBlock_eq, if_neg (fun h => hsmall' h.2), if_neg (by simp [hidle])]
  simpa only [Fx2.expire_ep0buf, Fx2.expire_pecEnabled, Fx2.expire_toI2c, Fx2.expire_oob] using h

/-- The request brings more data of a live sequence, and not the last. -/
theorem writeBlock_stores (hfuel : 256 ≤ fuel) (s : Fx2) (hlive : s.count ≤ blockSeqTimeout)
    (hlen : s.templen.toNat < 256) (hptr : s.tempptr.toNat + 64 < s.templen.toNat) :
    writeBlock T fuel smbAddr smbCmd s = .ok true { s with
      tempptr := BitVec.ofNat 16 (s.tempptr.toNat + 64),
      temp := s.temp.write s.tempptr.toNat (s.ep0buf.read 0 64),
      oob := s.oob || decide (tempSize < s.tempptr.toNat + 64) } := by
  have hpos : 0 < s.templen := by rw [BitVec.lt_def]; simp; omega
  have hne : s.templen ≠ 0 := by
    rintro h
    rw [h] at hptr
    simp at hptr
  have hmin : min 64 (s.templen.toNat - s.tempptr.toNat) = 64 := by omega
  have hstore := writeBlockStore_run fuel (by omega) s hlen (by omega)
  simp only [hmin] at hstore
  have hmore : BitVec.ofNat 16 (s.tempptr.toNat + 64) ≠ s.templen := by
    intro h
    have := congrArg BitVec.toNat h
    simp at this
    omega
  rw [writeBlock_eq, Fx2.expire_of_live hlive, if_neg (fun h => hne h.1), if_pos hpos]
  simp only [bind, EStateM.bind, hstore, get, getThe,
    MonadStateOf.get, EStateM.get, hmore, if_false]
  rfl

/-- The request brings the last data of a live sequence, and the block is sent. -/
theorem writeBlock_completes (hfuel : 256 ≤ fuel) (s : Fx2) (hlive : s.count ≤ blockSeqTimeout)
    (hlen : s.templen.toNat < 256) (hptr : s.tempptr.toNat < s.templen.toNat)
    (hlast : s.templen.toNat ≤ s.tempptr.toNat + 64) :
    let n := s.templen.toNat - s.tempptr.toNat
    let r := sendFrame T (blockFrame s.pecEnabled (toByte smbAddr) (toByte smbCmd)
      (toByte s.templen) (s.temp.read 0 s.tempptr.toNat ++ s.ep0buf.read 0 n)) s.toI2c
    let s' := { s with
      toI2c := r.2, temp := s.temp.write s.tempptr.toNat (s.ep0buf.read 0 n),
      oob := s.oob || decide (tempSize < s.templen.toNat) }
    writeBlock T fuel smbAddr smbCmd s =
      .ok r.1 (if r.1 then { s' with tempptr := 0, templen := 0 }
        else { s' with tempptr := s.templen }) := by
  intro n r s'
  have hpos : 0 < s.templen := by rw [BitVec.lt_def]; simp; omega
  have hne : s.templen ≠ 0 := by
    rintro h
    rw [h] at hptr
    simp at hptr
  have hmin : min 64 (s.templen.toNat - s.tempptr.toNat) = n := by omega
  have hsum : s.tempptr.toNat + n = s.templen.toNat := by omega
  have hstore := writeBlockStore_run fuel (by omega) s hlen hptr
  simp only [hmin, hsum, BitVec.ofNat_toNat, BitVec.setWidth_eq] at hstore
  have hblock : (s.temp.write s.tempptr.toNat (s.ep0buf.read 0 n)).read 0 s.templen.toNat =
      s.temp.read 0 s.tempptr.toNat ++ s.ep0buf.read 0 n := by
    have h1 := Mem.read_write s.temp s.tempptr.toNat (s.ep0buf.read 0 n)
    rw [Mem.length_read] at h1
    rw [← hsum, Mem.read_add, Nat.zero_add, h1, Mem.read_write_of_disjoint _ (by simp)]
  obtain ⟨o, hmono, hin, hsend⟩ := writeBlockSendTemp_run T fuel smbAddr smbCmd hfuel
    { s with
      tempptr := s.templen, temp := s.temp.write s.tempptr.toNat (s.ep0buf.read 0 n),
      oob := s.oob || decide (tempSize < s.templen.toNat) } hlen
  simp only [hblock] at hsend
  have ho : o = (s.oob || decide (tempSize < s.templen.toNat)) := by
    by_cases h : s.templen.toNat ≤ tempSize
    · exact hin h
    · rw [hmono (by simp; omega)]
      simp; omega
  rw [writeBlock_eq, Fx2.expire_of_live hlive, if_neg (fun h => hne h.1), if_pos hpos]
  simp only [bind, EStateM.bind, hstore, get, getThe, MonadStateOf.get, EStateM.get, if_true]
  rw [hsend, ho]

end

end Smbusb
