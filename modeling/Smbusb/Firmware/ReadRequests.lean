import Smbusb.Firmware.ReadBlock
import Smbusb.Firmware.Transfer

/-!
# Read requests, for every target

`READ_BYTE`, `READ_WORD` and a fresh `READ_BLOCK` address the target, make a row of calls of
`i2c_bytein`, and compare the last value with the packet error code of the others.  They
differ in how many calls they make, in what they do with the bus when they give up, and in
the counts a block read refuses.

`ReadEnd` says once how such a request can end, with the state it ends in; `readRequest_ends`
says that every request ends so.  What holds of all reads is then a case analysis of
`ReadEnd`.
-/

namespace Smbusb

open Logic Prog Fw Handler

/-! ## Addressing the target -/

/-- START, the address and the command, START again, the read address.  No result if the
START failed, and otherwise whether the target ACKed all three bytes. -/
def addressRead (T : Target) (smbAddr smbCmd : Word) (s : I2c) : Option Bool × I2c :=
  let r := i2cStart T s
  if r.1 then
    let r := sendAll T [toByte smbAddr, toByte smbCmd] r.2
    if r.1 then
      let r := i2cByteout T (toByte (smbAddr + 1)) (i2cRestart r.2)
      (some r.1, r.2)
    else (some false, r.2)
  else (none, r.2)

section

variable {T : Target} {smbAddr smbCmd : Word}

/-- The address phase of a read request, with the labels it jumps to. -/
def address (T : Target) (smbAddr smbCmd : Word) (noStart noAck : Label) : Fw Unit := do
  orGoto (i2c (i2cStart T)) noStart
  orGoto (i2c (i2cByteout T (toByte smbAddr))) noAck
  orGoto (i2c (i2cByteout T (toByte smbCmd))) noAck
  i2cDo i2cRestart
  orGoto (i2c (i2cByteout T (toByte (smbAddr + 1)))) noAck

theorem wp_address {Q : Unit → Fx2 → Prop} {E : Label → Fx2 → Prop} {noStart noAck : Label}
    {s : Fx2} :
    wp (address T smbAddr smbCmd noStart noAck) Q E s ↔
      match addressRead T smbAddr smbCmd s.toI2c with
      | (none, b) => E noStart { s with toI2c := b }
      | (some false, b) => E noAck { s with toI2c := b }
      | (some true, b) => Q () { s with toI2c := b } := by
  simp only [address, addressRead, sendAll, wp_bind, wp_orGoto, wp_i2c, wp_i2cDo]
  generalize i2cStart T s.toI2c = r₀
  obtain ⟨started, b₀⟩ := r₀
  cases started with
  | false => rfl
  | true =>
  simp only [if_true]
  generalize i2cByteout T (toByte smbAddr) b₀ = r₁
  obtain ⟨ack, b₁⟩ := r₁
  cases ack with
  | false => rfl
  | true =>
  simp only [if_true]
  generalize i2cByteout T (toByte smbCmd) b₁ = r₂
  obtain ⟨ack, b₂⟩ := r₂
  cases ack with
  | false => rfl
  | true =>
  simp only [if_true]
  generalize i2cByteout T (toByte (smbAddr + 1)) (i2cRestart b₂) = r₃
  obtain ⟨ack, b₃⟩ := r₃
  cases ack with
  | false => rfl
  | true => rfl

theorem address_bind {A : Type} (noStart noAck : Label) (rest : Fw A) :
    (do orGoto (i2c (i2cStart T)) noStart
        orGoto (i2c (i2cByteout T (toByte smbAddr))) noAck
        orGoto (i2c (i2cByteout T (toByte smbCmd))) noAck
        i2cDo i2cRestart
        orGoto (i2c (i2cByteout T (toByte (smbAddr + 1)))) noAck
        rest) = (do address T smbAddr smbCmd noStart noAck; rest) := by
  simp only [address, bind_assoc]

end

/-! ## The three requests -/

/-- The requests that read from a command. -/
inductive ReadKind where
  | byte
  | word
  | block
deriving DecidableEq, Repr

namespace ReadKind

/-- The request code. -/
def code : ReadKind → Byte
  | byte => smbReadByte
  | word => smbReadWord
  | block => smbReadBlock

/-- The calls it makes, with the PEC on or off; a block read learns from its count `c` how
many, and always reads a PEC. -/
def calls (on : Bool) (c : Byte) : ReadKind → Nat
  | byte => 1 + on.toNat
  | word => 2 + on.toNat
  | block => c.toNat + 2

/-- The bytes of its reply. -/
def replies (c : Byte) : ReadKind → Nat
  | byte => 1
  | word => 2
  | block => min 64 (c.toNat + 1)

end ReadKind

/-- The first call of a block read, whose value is the count. -/
def countCall (T : Target) (b : I2c) : Byte × I2c := i2cBytein T true false false false b

/-- The last value is not the packet error code of the address bytes and the other values. -/
def PecWrong (smbAddr smbCmd : Word) (vs : List Byte) : Prop :=
  vs.getLastD 0 ≠ crc8 (readAddress smbAddr smbCmd ++ vs.dropLast)

instance (smbAddr smbCmd : Word) (vs : List Byte) : Decidable (PecWrong smbAddr smbCmd vs) :=
  inferInstanceAs (Decidable (_ ≠ _))

/-- How a read request from `s` ends. -/
inductive ReadEnd (T : Target) (kind : ReadKind) (smbAddr smbCmd : Word) (s : Fx2) :
    Bool → Fx2 → Prop
  /-- The START failed.  A block read sets no STOP then. -/
  | noStart {b : I2c} {s' : Fx2} : addressRead T smbAddr smbCmd s.toI2c = (none, b) →
      s'.trace = (if kind = .block then b else i2cStop T b).trace → s'.pecFailed = s.pecFailed →
      ReadEnd T kind smbAddr smbCmd s false s'
  /-- The target did not ACK a byte. -/
  | nack {b : I2c} {s' : Fx2} : addressRead T smbAddr smbCmd s.toI2c = (some false, b) →
      s'.trace = (i2cStop T b).trace → s'.pecFailed = s.pecFailed →
      ReadEnd T kind smbAddr smbCmd s false s'
  /-- A block read refuses the counts 0 and 255. -/
  | refused {b b' : I2c} {c : Byte} {s' : Fx2} :
      addressRead T smbAddr smbCmd s.toI2c = (some true, b) → kind = .block →
      countCall T b = (c, b') → c = 0 ∨ c = 0xFF →
      s'.trace = (i2cStop T b').trace → s'.pecFailed = s.pecFailed →
      ReadEnd T kind smbAddr smbCmd s false s'
  /-- The `BYTE` length of a block read wraps to 0: its loop ends behind the count. -/
  | wrapped {b b' : I2c} {ok : Bool} {s' : Fx2} :
      addressRead T smbAddr smbCmd s.toI2c = (some true, b) → kind = .block →
      countCall T b = (0xFE, b') →
      ok = !(s.pecEnabled && crc8 (readAddress smbAddr smbCmd) != 0) →
      s'.trace = b'.trace → s'.pecFailed = (s.pecFailed || !ok) → (ok = true → s'.ep0bcl = 255) →
      ReadEnd T kind smbAddr smbCmd s ok s'
  /-- The PEC is wrong.  A block read has set its STOP already. -/
  | mismatch {b b' : I2c} {vs : List Byte} {s' : Fx2} :
      addressRead T smbAddr smbCmd s.toI2c = (some true, b) →
      (kind = .block → (countCall T b).1 ≠ 0 ∧ (countCall T b).1 < 0xFE) →
      transfer T true true (kind.calls s.pecEnabled (countCall T b).1)
        (kind.calls s.pecEnabled (countCall T b).1) b = (vs, b') →
      s.pecEnabled = true → PecWrong smbAddr smbCmd vs →
      s'.trace = (if kind = .block then b' else i2cStop T b').trace → s'.pecFailed = true →
      ReadEnd T kind smbAddr smbCmd s false s'
  /-- The reply is the first of the values. -/
  | done {b b' : I2c} {vs : List Byte} {s' : Fx2} :
      addressRead T smbAddr smbCmd s.toI2c = (some true, b) →
      (kind = .block → (countCall T b).1 ≠ 0 ∧ (countCall T b).1 < 0xFE) →
      transfer T true true (kind.calls s.pecEnabled (countCall T b).1)
        (kind.calls s.pecEnabled (countCall T b).1) b = (vs, b') →
      (s.pecEnabled = true → ¬ PecWrong smbAddr smbCmd vs) →
      s'.trace = b'.trace → s'.pecFailed = s.pecFailed →
      s'.ep0bcl.toNat = kind.replies (countCall T b).1 →
      s'.reply 255 = vs.take (kind.replies (countCall T b).1) →
      ReadEnd T kind smbAddr smbCmd s true s'

section

variable {T : Target} {smbAddr smbCmd : Word} {s : Fx2}

/-! ## `READ_BYTE` and `READ_WORD` -/

theorem readByte_ends (s : Fx2) :
    ∃ ok s', readByte T smbAddr smbCmd s = .ok ok s' ∧
      ReadEnd T .byte smbAddr smbCmd s ok s' := by
  refine exists_run_of_wp ?_
  rw [readByte, wp_labels, address_bind, wp_bind, wp_address]
  split
  · next b haddr => exact .noStart haddr rfl rfl
  · next b haddr => exact .nack haddr rfl rfl
  · next b haddr =>
    simp only [wp_bind, wp_get, wp_ite, wp_i2c, wp_setEp0buf, wp_setEp0bcl, wp_modify, wp_goto,
      wp_pure]
    have hno : ReadKind.byte = .block → (countCall T b).1 ≠ 0 ∧ (countCall T b).1 < 0xFE :=
      fun h => ReadKind.noConfusion h
    cases hon : s.pecEnabled with
    | true =>
        have hcalls : ReadKind.byte.calls s.pecEnabled (countCall T b).1 = 2 := by
          rw [hon]
          rfl
        have hrow : transfer T true true 2 2 b = ([(i2cBytein T true false true false b).1,
            (i2cBytein T false false false true (i2cBytein T true false true false b).2).1],
            (i2cBytein T false false false true (i2cBytein T true false true false b).2).2) := rfl
        generalize i2cBytein T true false true false b = r₀ at hrow ⊢
        obtain ⟨v₀, b₀⟩ := r₀
        generalize i2cBytein T false false false true b₀ = r₁ at hrow ⊢
        obtain ⟨v₁, b₁⟩ := r₁
        rw [← hcalls] at hrow
        rw [if_pos rfl]
        have hcrc : crc8 (readAddress smbAddr smbCmd ++ [v₀, v₁].dropLast) =
            pecCrc (pecCrc (pecCrc (pecCrc 0 (toByte smbAddr)) (toByte smbCmd))
              (toByte (smbAddr + 1))) v₀ := rfl
        split
        · next hwrong =>
          exact .mismatch haddr hno hrow hon (by rw [PecWrong, hcrc]; exact hwrong) rfl rfl
        · next hright =>
          refine .done haddr hno hrow (fun _ => by rw [PecWrong, hcrc]; exact hright) rfl rfl rfl ?_
          rfl
    | false =>
        have hcalls : ReadKind.byte.calls s.pecEnabled (countCall T b).1 = 1 := by
          rw [hon]
          rfl
        have hrow : transfer T true true 1 1 b = ([(i2cBytein T true true false true b).1],
            (i2cBytein T true true false true b).2) := rfl
        rw [← hcalls] at hrow
        rw [if_neg Bool.false_ne_true]
        exact .done haddr hno hrow (fun h => absurd h (by simp [hon])) rfl rfl rfl rfl

theorem readWord_ends (s : Fx2) :
    ∃ ok s', readWord T smbAddr smbCmd s = .ok ok s' ∧
      ReadEnd T .word smbAddr smbCmd s ok s' := by
  refine exists_run_of_wp ?_
  rw [readWord, wp_labels, address_bind, wp_bind, wp_address]
  split
  · next b haddr => exact .noStart haddr rfl rfl
  · next b haddr => exact .nack haddr rfl rfl
  · next b haddr =>
    simp only [wp_bind, wp_get, wp_ite, wp_i2c, wp_setEp0buf, wp_setEp0bcl, wp_modify, wp_goto,
      wp_pure]
    have hno : ReadKind.word = .block → (countCall T b).1 ≠ 0 ∧ (countCall T b).1 < 0xFE :=
      fun h => ReadKind.noConfusion h
    cases hon : s.pecEnabled with
    | true =>
        have hcalls : ReadKind.word.calls s.pecEnabled (countCall T b).1 = 3 := by
          rw [hon]
          rfl
        obtain ⟨b₀, hb₀⟩ : ∃ b₀, b₀ = (i2cBytein T true false false false b).2 := ⟨_, rfl⟩
        obtain ⟨b₁, hb₁⟩ : ∃ b₁, b₁ = (i2cBytein T false false true false b₀).2 := ⟨_, rfl⟩
        have hrow : transfer T true true 3 3 b = ([(i2cBytein T true false false false b).1,
            (i2cBytein T false false true false b₀).1, (i2cBytein T false false false true b₁).1],
            (i2cBytein T false false false true b₁).2) := by
          rw [hb₁, hb₀]
          rfl
        rw [← hcalls] at hrow
        rw [if_pos rfl, ← hb₀, ← hb₁]
        generalize (i2cBytein T true false false false b).1 = v₀ at hrow ⊢
        generalize (i2cBytein T false false true false b₀).1 = v₁ at hrow ⊢
        generalize i2cBytein T false false false true b₁ = r₂ at hrow ⊢
        obtain ⟨v₂, b₂⟩ := r₂
        have hcrc : crc8 (readAddress smbAddr smbCmd ++ [v₀, v₁, v₂].dropLast) =
            pecCrc (pecCrc (pecCrc (pecCrc (pecCrc 0 (toByte smbAddr)) (toByte smbCmd))
              (toByte (smbAddr + 1))) v₀) v₁ := rfl
        split
        · next hwrong =>
          exact .mismatch haddr hno hrow hon (by rw [PecWrong, hcrc]; exact hwrong) rfl rfl
        · next hright =>
          exact .done haddr hno hrow (fun _ => by rw [PecWrong, hcrc]; exact hright) rfl rfl rfl rfl
    | false =>
        have hcalls : ReadKind.word.calls s.pecEnabled (countCall T b).1 = 2 := by
          rw [hon]
          rfl
        have hrow : transfer T true true 2 2 b = ([(i2cBytein T true false true false b).1,
            (i2cBytein T false false false true (i2cBytein T true false true false b).2).1],
            (i2cBytein T false false false true (i2cBytein T true false true false b).2).2) := rfl
        rw [← hcalls] at hrow
        rw [if_neg Bool.false_ne_true]
        exact .done haddr hno hrow (fun h => absurd h (by simp [hon])) rfl rfl rfl rfl

/-! ## A fresh `READ_BLOCK` -/

/-- A turn behind the first one, number `k` of `n`: it stores its value, or keeps it as the
PEC. -/
structure TurnAt (T : Target) (n k : Nat) (v : ReadVars) (t : Fx2) (v' : ReadVars) (t' : Fx2) :
    Prop where
  i : v'.i = v.i + 1
  blocklen : v'.blocklen = v.blocklen
  i2c : t'.toI2c = (byteinAt T true true n k t.toI2c).2
  pecEnabled : t'.pecEnabled = t.pecEnabled
  pecFailed : t'.pecFailed = t.pecFailed
  ep0buf : t'.ep0buf = if k + 1 < n ∧ k < 64 then
    Function.update t.ep0buf k (byteinAt T true true n k t.toI2c).1 else t.ep0buf
  pec : v'.pec = if t.pecEnabled = true ∧ k + 1 < n then
    pecCrc v.pec (byteinAt T true true n k t.toI2c).1 else v.pec
  rpec : v'.rpec = if t.pecEnabled = true ∧ k + 1 = n then
    (byteinAt T true true n k t.toI2c).1 else v.rpec

theorem wp_readBlockTurn_at {v : ReadVars} {n k : Nat} (hi : v.i.toNat = k)
    (hL : v.blocklen.toNat = n) (hpos : 0 < k) (t : Fx2) :
    wp (readBlockTurn T v) (TurnAt T n k v t) (fun _ _ => False) t := by
  have hne : ¬ v.i = 0 := by
    intro h
    rw [h] at hi
    exact absurd hpos (by rw [← hi]; exact Nat.lt_irrefl 0)
  have hopen : (true && k == 0) = false := by
    have : ¬ k = 0 := by omega
    simp [this]
  have hcall : byteinAt T true true n k t.toI2c = i2cBytein T (v.i == 0) false
      (v.i.toNat + 2 == v.blocklen.toNat) (v.i.toNat + 1 == v.blocklen.toNat) t.toI2c := by
    rw [byteinAt, hopen, hi, hL, beq_false_of_ne hne]
    rfl
  simp only [readBlockTurn, wp_bind, wp_i2c, wp_ite, ← hcall]
  have h64 : (v.i < 64) = (k < 64) := by
    rw [BitVec.lt_def, hi]
    rfl
  simp only [hne, false_and, if_false, wp_get, wp_setEp0buf, wp_setTemp, wp_pure, hi, hL, h64]
  split
  · next hstore =>
    split
    · next hlow => exact ⟨rfl, rfl, rfl, rfl, rfl, by rw [if_pos ⟨hstore, hlow⟩], rfl, rfl⟩
    · next hhigh => exact ⟨rfl, rfl, rfl, rfl, rfl, by rw [if_neg fun h => hhigh h.2], rfl, rfl⟩
  · next hlast => exact ⟨rfl, rfl, rfl, rfl, rfl, by rw [if_neg fun h => hlast h.1], rfl, rfl⟩

/-- The loop before turn `k`: the values so far are stored, as far as `EP0BUF` holds them, and
in the packet error code. -/
structure TurnsDone (T : Target) (smbAddr smbCmd : Word) (b : I2c) (s : Fx2) (n k : Nat)
    (v : ReadVars) (t : Fx2) : Prop where
  i : v.i.toNat = k
  blocklen : v.blocklen.toNat = n
  i2c : t.toI2c = (transfer T true true n k b).2
  pecEnabled : t.pecEnabled = s.pecEnabled
  pecFailed : t.pecFailed = s.pecFailed
  ep0buf : t.ep0buf = s.ep0buf.write 0 ((transfer T true true n k b).1.take 64)
  pec : s.pecEnabled = true →
    v.pec = crc8 (readAddress smbAddr smbCmd ++ (transfer T true true n k b).1)
  rpec : v.rpec = 0

theorem TurnsDone.step {b : I2c} {n k : Nat} {v v' : ReadVars} {t t' : Fx2}
    (h : TurnsDone T smbAddr smbCmd b s n k v t) (hturn : TurnAt T n k v t v' t')
    (hk : k + 1 < n) (hn : n < 256) :
    TurnsDone T smbAddr smbCmd b s n (k + 1) v' t' := by
  have hlen : (transfer T true true n k b).1.length = k := length_transfer k b
  have hi2c := h.i2c
  refine ⟨?_, hturn.blocklen ▸ h.blocklen, ?_, hturn.pecEnabled.trans h.pecEnabled,
    hturn.pecFailed.trans h.pecFailed, ?_, fun hon => ?_, ?_⟩
  · rw [hturn.i, toNat_succ (by rw [h.i]; omega), h.i]
  · rw [hturn.i2c, hi2c]
    rfl
  · rw [hturn.ep0buf, h.ep0buf, hi2c, transfer_succ]
    generalize (byteinAt T true true n k (transfer T true true n k b).2).1 = x
    generalize (transfer T true true n k b).1 = vs at hlen ⊢
    subst hlen
    rcases Nat.lt_or_ge vs.length 64 with h64 | h64
    · rw [if_pos ⟨hk, h64⟩, List.take_of_length_le (by omega),
        List.take_of_length_le (by rw [List.length_append, List.length_singleton]; omega)]
      have hupd := Mem.update_write s.ep0buf 0 vs x
      rwa [Nat.zero_add] at hupd
    · rw [if_neg fun h => absurd h.2 (Nat.not_lt.mpr h64), List.take_append_of_le_length h64]
  · rw [hturn.pec, if_pos ⟨h.pecEnabled.trans hon, hk⟩, h.pec hon, hi2c, transfer_succ,
      ← List.append_assoc, crc8_snoc]
  · rw [hturn.rpec, if_neg (fun h => by omega), h.rpec]

/-- The first turn learns the count, refuses it, or wraps. -/
theorem wp_readBlockTurn_count {Q : ReadVars → Fx2 → Prop} {E : Label → Fx2 → Prop} {pec c : Byte}
    {b' : I2c} {t : Fx2} (hcount : countCall T t.toI2c = (c, b'))
    (hbad : c = 0 ∨ c = 0xFF → E .rlstopfail { t with toI2c := b' })
    (hwrap : c = 0xFE → Q { i := 1, blocklen := 0, pec, rpec := 0 } { t with toI2c := b' })
    (hok : c ≠ 0 → c < 0xFE →
      Q { i := 1, blocklen := c + 2, pec := if t.pecEnabled then pecCrc pec c else pec, rpec := 0 }
        { t with
          toI2c := b', ep0buf := Function.update t.ep0buf 0 c
          oob := t.oob || decide (ep0Size ≤ 0) }) :
    wp (readBlockTurn T { i := 0, blocklen := 255, pec, rpec := 0 }) Q E t := by
  have hcall : i2cBytein T ((0 : Byte) == 0) false ((0 : Byte).toNat + 2 == (255 : Byte).toNat)
      ((0 : Byte).toNat + 1 == (255 : Byte).toNat) t.toI2c = (c, b') := hcount
  have hc := c.isLt
  have hcases : (c = 0 ∨ c = 0xFF) ∨ c = 0xFE ∨ (c ≠ 0 ∧ c < 0xFE) := by
    simp only [BitVec.toNat_eq, BitVec.lt_def, ne_eq]
    simp
    omega
  simp only [readBlockTurn, wp_bind, wp_i2c, wp_ite, hcall]
  rcases hcases with h | rfl | ⟨h0, hlt⟩
  · rw [if_pos ⟨trivial, by rcases h with rfl | rfl <;> decide⟩]
    exact hbad h
  · rw [if_neg (by decide)]
    simp only [wp_get, wp_setEp0buf, wp_setTemp, wp_pure, if_true]
    rw [if_neg (by decide), if_neg (fun h => absurd h.2 (by decide)),
      if_neg (fun h => absurd h.2 (by decide))]
    exact hwrap rfl
  · have hlen : (c + 2).toNat = c.toNat + 2 := by
      rw [BitVec.lt_def] at hlt
      rw [BitVec.toNat_add]
      simp at hlt ⊢
      omega
    have hnot : ¬ (0xFE < c ∨ c = 0) := by
      rintro (h | h)
      · rw [BitVec.lt_def] at h hlt
        omega
      · exact h0 h
    rw [if_neg fun h => hnot h.2]
    simp only [wp_get, wp_setEp0buf, wp_setTemp, wp_pure, if_true, hlen]
    rw [if_pos (show (0 : Byte).toNat + 1 < c.toNat + 2 by simp), if_pos (by decide)]
    have h1 : (0 : Byte).toNat + 1 < c.toNat + 2 := by simp
    have h2 : ¬ (0 : Byte).toNat + 1 = c.toNat + 2 := by simp
    simp only [h1, h2, and_true, and_false, if_false]
    exact hok h0 hlt

@[simp] theorem Fx2.expire_pecFailed : s.expire.pecFailed = s.pecFailed := by
  unfold Fx2.expire
  split <;> rfl

theorem wp_readBlockFail_eq {Q : Bool → Fx2 → Prop} {E : Label → Fx2 → Prop} {l : Label} {t : Fx2} :
    wp (readBlockFail T l) Q E t ↔
      if l = .rlstopfail then Q false { t with toI2c := i2cStop T t.toI2c, ep0bcl := 0 }
      else Q false { t with ep0bcl := 0 } := by
  simp only [readBlockFail, wp_bind, wp_ite, wp_i2cDo, wp_setEp0bcl, wp_pure]

variable (T smbAddr smbCmd s) in
/-- The turns behind the first one, for a count from 1 to 253. -/
theorem wp_readBlock_turns {Q : ReadVars → Fx2 → Prop} {E : Label → Fx2 → Prop} {b : I2c} {c : Byte}
    {v : ReadVars} {t : Fx2} {fuel : Nat} (hc : c < 0xFE) (hfuel : c.toNat + 2 ≤ fuel)
    (hstart : TurnsDone T smbAddr smbCmd b s (c.toNat + 2) 1 v t)
    (hQ : ∀ v' t', v'.blocklen.toNat = c.toNat + 2 →
      t'.toI2c = (transfer T true true (c.toNat + 2) (c.toNat + 2) b).2 →
      t'.pecEnabled = s.pecEnabled → t'.pecFailed = s.pecFailed →
      t'.ep0buf =
        s.ep0buf.write 0 ((transfer T true true (c.toNat + 2) (c.toNat + 2) b).1.dropLast.take 64) →
      (s.pecEnabled = true → (v'.rpec ≠ v'.pec ↔
        PecWrong smbAddr smbCmd
          (transfer T true true (c.toNat + 2) (c.toNat + 2) b).1)) → Q v' t') :
    wp (whileLoop (fun v _ => v.i < v.blocklen) (readBlockTurn T) fuel v) Q E t := by
  rw [BitVec.lt_def] at hc
  have hn : c.toNat + 2 < 256 := by
    simp at hc
    omega
  obtain ⟨fuel, rfl⟩ : ∃ f, fuel = f + 2 + c.toNat := ⟨fuel - 2 - c.toNat, by omega⟩
  have hmore : ∀ {k : Nat} {v : ReadVars} {t : Fx2},
      TurnsDone T smbAddr smbCmd b s (c.toNat + 2) k v t →
      k < c.toNat + 2 → decide (v.i < v.blocklen) = true := by
    intro k v t h hk
    rw [decide_eq_true_eq, BitVec.lt_def, h.i, h.blocklen]
    exact hk
  refine wp_whileLoop_add (fun j v t => TurnsDone T smbAddr smbCmd b s (c.toNat + 2) (j + 1) v t)
    c.toNat ?_ ?_ hstart
  · intro j hj v t h
    refine ⟨hmore h (by omega), wp_mono (wp_readBlockTurn_at h.i h.blocklen (by omega) t) ?_
      fun _ _ h => h.elim⟩
    exact fun v' t' hturn => h.step hturn (by omega) hn
  · -- The last turn, for the PEC.
    intro v t h
    rw [wp_whileLoop_succ, if_pos (hmore h (by omega))]
    refine wp_mono (wp_readBlockTurn_at h.i h.blocklen (by omega) t) ?_ fun _ _ h => h.elim
    intro v' t' hturn
    have hover : ¬ decide (v'.i < v'.blocklen) = true := by
      rw [decide_eq_true_eq, BitVec.lt_def, hturn.i, hturn.blocklen, h.blocklen,
        toNat_succ (by rw [h.i]; omega), h.i]
      omega
    rw [wp_whileLoop_succ, if_neg hover]
    have hlast : transfer T true true (c.toNat + 2) (c.toNat + 2) b =
        ((transfer T true true (c.toNat + 2) (c.toNat + 1) b).1 ++
          [(byteinAt T true true (c.toNat + 2) (c.toNat + 1) t.toI2c).1], t'.toI2c) := by
      rw [hturn.i2c, h.i2c]
      rfl
    refine hQ v' t' (by rw [hturn.blocklen, h.blocklen]) (by rw [hlast])
      (hturn.pecEnabled.trans h.pecEnabled) (hturn.pecFailed.trans h.pecFailed) ?_ fun hon => ?_
    · rw [hturn.ep0buf, if_neg (fun h => by omega), h.ep0buf, hlast, List.dropLast_concat]
    · have hon' : t.pecEnabled = true := h.pecEnabled.trans hon
      rw [hturn.rpec, hturn.pec, if_pos ⟨hon', rfl⟩, if_neg (fun h => by omega), h.pec hon, hlast,
        PecWrong, List.dropLast_concat, List.getLastD_concat]

/-- No data is outstanding, so that `READ_BLOCK` reads a block. -/
def Fx2.Idle (s : Fx2) : Prop := s.expire.templen = s.expire.tempptr

/-- What is read of a block, once the target is addressed. -/
theorem wp_readBlockData_ends {b : I2c} {fuel : Nat} (hfuel : 256 ≤ fuel)
    (haddr : addressRead T smbAddr smbCmd s.toI2c = (some true, b)) :
    wp (readBlockData T fuel smbAddr smbCmd) (ReadEnd T .block smbAddr smbCmd s)
      (fun l t => wp (readBlockFail T l) (ReadEnd T .block smbAddr smbCmd s) (fun _ _ => False) t)
      { s.expire with toI2c := b } := by
  obtain ⟨fuel, rfl⟩ : ∃ f, fuel = f + 1 := ⟨fuel - 1, by omega⟩
  have hon : s.expire.pecEnabled = s.pecEnabled := Fx2.expire_pecEnabled
  have hfailed : s.expire.pecFailed = s.pecFailed := Fx2.expire_pecFailed
  simp only [readBlockData, wp_bind, wp_get, hon]
  rw [wp_whileLoop_succ, if_pos (show decide ((0 : Byte) < 255) = true from rfl)]
  generalize hpec : (if s.pecEnabled = true then
    pecCrc (pecCrc (pecCrc 0 (toByte smbAddr)) (toByte smbCmd)) (toByte (smbAddr + 1)) else 0) = pec
  have hcrc : s.pecEnabled = true → pec = crc8 (readAddress smbAddr smbCmd) := by
    intro h
    rw [← hpec, if_pos h]
    rfl
  have hcount : countCall T b = ((countCall T b).1, (countCall T b).2) := rfl
  refine wp_readBlockTurn_count (c := (countCall T b).1) hcount ?_ ?_ ?_
  · intro hbad
    rw [wp_readBlockFail_eq, if_pos rfl]
    exact .refused haddr rfl hcount hbad rfl hfailed
  · intro hwrap
    rw [hwrap] at hcount
    obtain ⟨fuel, rfl⟩ : ∃ f, fuel = f + 1 := ⟨fuel - 1, by omega⟩
    rw [wp_whileLoop_succ, if_neg (show ¬ decide ((1 : Byte) < 0) = true by decide)]
    simp only [wp_modify, wp_ite, wp_bind, wp_goto, wp_setEp0bcl, wp_pure]
    rw [if_neg (show ¬ 65 < (0 : Byte).toNat by decide)]
    cases h : s.pecEnabled with
    | false =>
        rw [if_neg (fun h => Bool.noConfusion h.1)]
        exact .wrapped haddr rfl hcount (by rw [h]; rfl) rfl (by simp) fun _ => rfl
    | true =>
        rw [hcrc h]
        split
        · next hne =>
          rw [wp_readBlockFail_eq, if_neg (by decide)]
          refine .wrapped haddr rfl hcount ?_ rfl (by simp) fun h => Bool.noConfusion h
          have hcrc0 : crc8 (readAddress smbAddr smbCmd) ≠ 0 := fun h => hne.2 h.symm
          rw [h, bne_iff_ne.mpr hcrc0]
          rfl
        · next hne =>
          refine .wrapped haddr rfl hcount ?_ rfl (by simp) fun _ => rfl
          have hcrc0 : crc8 (readAddress smbAddr smbCmd) = 0 := by
            by_contra h
            exact hne ⟨rfl, fun h' => h h'.symm⟩
          rw [hcrc0]
          simp
  · intro h0 hlt
    have hno : ReadKind.block = .block → (countCall T b).1 ≠ 0 ∧ (countCall T b).1 < 0xFE :=
      fun _ => ⟨h0, hlt⟩
    generalize hc : (countCall T b).1 = c at h0 hlt
    have hcalls : ReadKind.block.calls s.pecEnabled (countCall T b).1 = c.toNat + 2 := by
      rw [hc]
      rfl
    have hreplies : ReadKind.block.replies (countCall T b).1 = min 64 (c.toNat + 1) := by
      rw [hc]
      rfl
    rw [BitVec.lt_def] at hlt
    have hlt' : c.toNat < 254 := hlt
    have hfirst : transfer T true true (c.toNat + 2) 1 b = ([c], (countCall T b).2) := by
      have hopen : byteinAt T true true (c.toNat + 2) 0 b = countCall T b := by
        have hne : (c.toNat == 0) = false := beq_false_of_ne fun h => h0 (BitVec.eq_of_toNat_eq h)
        simp [byteinAt, countCall, hne]
      rw [transfer_succ]
      simp [transfer, hopen, hc]
    have hlen : (c + 2).toNat = c.toNat + 2 := by
      rw [BitVec.toNat_add]
      simp
      omega
    refine wp_readBlock_turns T smbAddr smbCmd s (b := b) (c := c) hlt (by omega)
      ⟨rfl, hlen, by rw [hfirst], rfl, hfailed, ?_, fun h => ?_, rfl⟩ ?_
    · rw [hfirst]
      have hupd := Mem.update_write s.ep0buf 0 [] c
      simpa using hupd
    · rw [hfirst, crc8_snoc, ← hcrc h]
      simp [h]
    · intro v t hL hi2c hpecOn hpecFailed hbuf hwrong
      have hrow : transfer T true true (ReadKind.block.calls s.pecEnabled (countCall T b).1)
          (ReadKind.block.calls s.pecEnabled (countCall T b).1) b =
            ((transfer T true true (c.toNat + 2) (c.toNat + 2) b).1, t.toI2c) := by
        rw [hcalls, hi2c]
      simp only [wp_modify, wp_ite, wp_bind, wp_goto, wp_setEp0bcl, wp_pure, hL]
      have hkeep : ∃ t', (if 65 < c.toNat + 2 then
          { t with templen := v.blocklen.setWidth 16 - 65, tempptr := 0, count := 0 } else t) = t' ∧
          t'.trace = t.trace ∧ t'.pecEnabled = t.pecEnabled ∧ t'.pecFailed = t.pecFailed ∧
          t'.ep0buf = t.ep0buf := by
        refine ⟨_, rfl, ?_⟩
        split <;> exact ⟨rfl, rfl, rfl, rfl⟩
      obtain ⟨t', ht', htrace, hon', hfailed', hbuf'⟩ := hkeep
      rw [ht', hon', hpecOn]
      have hvalues : (transfer T true true (c.toNat + 2) (c.toNat + 2) b).1.length = c.toNat + 2 :=
        length_transfer _ b
      generalize (transfer T true true (c.toNat + 2) (c.toNat + 2) b).1 = vs
        at hbuf hwrong hrow hvalues
      split
      · next hbad =>
        rw [wp_readBlockFail_eq, if_neg (by decide)]
        exact .mismatch haddr hno hrow hbad.1 ((hwrong hbad.1).mp hbad.2) htrace rfl
      · next hgood =>
        have hbcl : (if 65 < c.toNat + 2 then 64 else v.blocklen - 1).toNat =
          min 64 (c.toNat + 1) := by
          split
          · next h =>
            rw [Nat.min_eq_left (by omega)]
            rfl
          · next h =>
            have h1 : (1 : Byte).toNat = 1 := rfl
            rw [BitVec.toNat_sub_of_le (by rw [BitVec.le_def, hL, h1]; omega), hL, h1]
            omega
        refine .done haddr hno hrow (fun h hw => hgood ⟨h, (hwrong h).mpr hw⟩) htrace
          (hfailed'.trans hpecFailed) (hbcl.trans hreplies.symm) ?_
        rw [hreplies, Fx2.reply]
        simp only [hbcl, hbuf', hbuf]
        have hdrop : (vs.dropLast.take 64).length = min 64 (c.toNat + 1) := by
          rw [List.length_take, List.length_dropLast, hvalues]
          rfl
        rw [Nat.min_eq_left (show min 64 (c.toNat + 1) ≤ 255 by omega),
        ← hdrop, Mem.read_write, hdrop,
          List.dropLast_eq_take, List.take_take, hvalues]
        congr 1

/-- A fresh `READ_BLOCK`. -/
theorem readBlock_ends {fuel : Nat} (hfuel : 256 ≤ fuel) {s : Fx2} (hidle : s.Idle) :
    ∃ ok s', readBlock T fuel smbAddr smbCmd s = .ok ok s' ∧
      ReadEnd T .block smbAddr smbCmd s ok s' := by
  refine exists_run_of_wp ?_
  simp only [readBlock, expireSeq, wp_bind, wp_modify, wp_get]
  rw [if_neg (by rw [hidle]; simp), wp_labels, readBlockFresh, wp_bind]
  have hphase : readBlockAddress T smbAddr smbCmd =
      address T smbAddr smbCmd .rlfail .rlstopfail := rfl
  rw [hphase, wp_address, Fx2.expire_toI2c]
  split
  · next b haddr =>
    rw [wp_readBlockFail_eq, if_neg (by decide)]
    exact .noStart haddr rfl Fx2.expire_pecFailed
  · next b haddr =>
    rw [wp_readBlockFail_eq, if_pos rfl]
    exact .nack haddr rfl Fx2.expire_pecFailed
  · next b haddr => exact wp_readBlockData_ends hfuel haddr

end

/-- Every read request ends as `ReadEnd` says. -/
theorem readRequest_ends (T : Target) {fuel : Nat} (hfuel : 256 ≤ fuel) (kind : ReadKind)
    (setup : Setup) {s : Fx2} (hidle : kind = .block → s.Idle) :
    ∃ ok s', handleVendorcommand T fuel kind.code setup s = .ok ok s' ∧
      ReadEnd T kind setup.value setup.index s ok s' := by
  cases kind with
  | byte => exact readByte_ends s
  | word => exact readWord_ends s
  | block => exact readBlock_ends hfuel (hidle rfl)

end Smbusb
