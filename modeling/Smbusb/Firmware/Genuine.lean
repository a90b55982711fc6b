import Smbusb.Firmware.Bounds
import Smbusb.Firmware.Release

/-!
# Bytes that were never received

Whether the bytes a read request replies are bytes the target sent.

`i2c_bytein` reports a byte that timed out as the value 0, and none of the handlers looks for
it.  So a loss goes unnoticed, unless the packet error code over what was handed over happens
to be wrong, or the 0 stands where a block read expects its count.  The last byte of a read is
also reported as 0 when the STOP bit does not show.

*Transfers.*  `Reaches` says that a row of calls loses no byte and that the first bytes it
hands over are those received (`transfer_genuine`).

*Requests.*  `Genuine` is what a request should guarantee, `Fx2.Sound` the exact condition
under which it does, from any state and for any target (`genuine_iff`).
-/

namespace Smbusb

open Logic Prog Fw Handler

/-! ## Transfers -/

/-- Of a read of `n` bytes none is lost, and the first `m` of them get to the handler.  The
last byte of all does when the STOP bit shows, or when it is 0. -/
structure Reaches (T : Target) (first last : Bool) (n m : Nat) (b : I2c) : Prop where
  arrive : ∃ ext, Extends b ext (transfer T first last n n b).2 ∧ .lost ∉ ext
  handed : last = true → m = n → 0 < n →
    (transfer T first last n n b).1.getLastD 0 = (transfer T first last n n b).2.i2dat

theorem Extends.unique {s s' : I2c} {ext ext' : List Event} (h : Extends s ext s')
    (h' : Extends s ext' s') : ext = ext' := List.append_cancel_left (h.symm.trans h')

/-- The first values of a row are the first of the others, or the last is what is left. -/
theorem take_prefix_iff (vs : List Byte) (d : Byte) (last : Bool) (m : Nat) (hpos : 0 < vs.length)
    (hm : m ≤ vs.length) :
    vs.take m <+: certain last vs ++ [d] ↔ (last = true → m = vs.length → vs.getLastD 0 = d) := by
  cases last with
  | false =>
      refine iff_of_true ?_ (fun h => Bool.noConfusion h)
      exact (List.take_prefix m vs).trans (List.prefix_append vs [d])
  | true =>
      obtain ⟨ws, v, rfl⟩ : ∃ ws v, vs = ws ++ [v] :=
        ⟨_, _, (List.dropLast_append_getLast (List.ne_nil_of_length_pos hpos)).symm⟩
      simp only [certain, if_true, List.dropLast_concat, List.getLastD_concat, forall_true_left]
      rw [List.length_append, List.length_singleton] at hm ⊢
      rcases Nat.eq_or_lt_of_le hm with rfl | hlt
      · rw [List.take_of_length_le (by simp)]
        simp [List.prefix_append_right_inj, List.prefix_cons_iff]
      · refine iff_of_true ?_ (fun h => by omega)
        rw [List.take_append_of_le_length (by omega)]
        exact (List.take_prefix m ws).trans (List.prefix_append ws [d])

/-- The first values of a read are genuine exactly when they get to the handler. -/
theorem transfer_genuine (T : Target) (first last : Bool) {n m : Nat} (hpos : 0 < n) (hm : m ≤ n)
    (b : I2c) :
    (∃ ext, Extends b ext (transfer T first last n n b).2 ∧ .lost ∉ ext ∧
      (transfer T first last n n b).1.take m <+: waiting first b ++ recvBytes ext) ↔
      Reaches T first last n m b := by
  obtain ⟨ext, hext, hmoves, -⟩ :=
    transfer_moves T first last hpos (Nat.le_refl n) b
  have hfinal : (last && n == n) = last := by simp
  rw [hfinal] at hmoves
  have hlen : (transfer T first last n n b).1.length = n := length_transfer n b
  have hprefix := take_prefix_iff (transfer T first last n n b).1
    (transfer T first last n n b).2.i2dat last m (by omega) (by omega)
  rw [hlen] at hprefix
  constructor
  · rintro ⟨ext', hext', hlost, hpre⟩
    refine ⟨⟨ext', hext', hlost⟩, fun h1 h2 _ => ?_⟩
    obtain rfl := hext'.unique hext
    rw [hmoves.whole hlost] at hpre
    exact hprefix.mp hpre h1 h2
  · rintro ⟨⟨ext', hext', hlost⟩, hhanded⟩
    refine ⟨ext', hext', hlost, ?_⟩
    obtain rfl := hext'.unique hext
    rw [hmoves.whole hlost]
    exact hprefix.mpr fun h1 h2 => hhanded h1 h2 hpos

/-! ## `READ` -/

section

variable {T : Target}

/-- The number of calls a `READ` makes. -/
def Fx2.readCalls (s : Fx2) (setup : Setup) : Byte :=
  if s.pecEnabled = true ∧ hasFlag (toByte setup.index) readCmdLastRead = true then
    toByte setup.value + 1
  else toByte setup.value

theorem hasFlag_clear (rs : Byte) :
    hasFlag (rs &&& ~~~readCmdFirstRead) readCmdFirstRead = false := by
  have hnone : ~~~readCmdFirstRead &&& readCmdFirstRead = 0 := by decide
  have hzero : rs &&& (0 : Byte) = 0 := BitVec.and_zero
  rw [hasFlag, BitVec.and_assoc, hnone, hzero]
  rfl

/-- A turn of the loop of `READ`. -/
theorem wp_readTurn_at (i j rs : Byte) (t : Fx2) :
    let r := i2cBytein T (hasFlag rs readCmdFirstRead) (hasFlag rs readCmdFirstRead && j == 1)
      (hasFlag rs readCmdLastRead && i.toNat + 2 == j.toNat)
      (hasFlag rs readCmdLastRead && i.toNat + 1 == j.toNat) t.toI2c
    wp (readTurn T j (i, rs)) (fun v t' => v = (i + 1, rs &&& ~~~readCmdFirstRead) ∧
      t'.toI2c = r.2 ∧ t'.pecEnabled = t.pecEnabled ∧
      t'.ep0buf = if t.pecEnabled = true ∧ hasFlag rs readCmdLastRead = true ∧ i.toNat + 1 = j.toNat
        then t.ep0buf else Function.update t.ep0buf i.toNat r.1) (fun _ _ => False) t := by
  intro r
  simp only [readTurn, wp_bind, wp_i2c, wp_get, wp_ite, wp_modify, wp_setEp0buf, wp_pure]
  split
  · next hon =>
    split
    · next hlast =>
      rw [Bool.and_eq_true, beq_iff_eq] at hlast
      exact ⟨trivial, rfl, trivial, by rw [if_pos ⟨hon, hlast⟩]⟩
    · next hlast =>
      rw [Bool.and_eq_true, beq_iff_eq] at hlast
      exact ⟨trivial, rfl, trivial, by rw [if_neg fun h => hlast h.2]⟩
  · next hoff => exact ⟨trivial, rfl, trivial, by rw [if_neg fun h => hoff h.1]⟩

/-- The loop of `READ` before turn `k` of `j`: the first `n` values are stored. -/
structure CallsDone (T : Target) (first last : Bool) (j n : Nat) (s : Fx2) (k : Nat)
    (v : Byte × Byte) (t : Fx2) : Prop where
  i : v.1.toNat = k
  firstFlag : hasFlag v.2 readCmdFirstRead = (first && k == 0)
  lastFlag : hasFlag v.2 readCmdLastRead = last
  i2c : t.toI2c = (transfer T first last j k s.toI2c).2
  pecEnabled : t.pecEnabled = s.pecEnabled
  ep0buf : t.ep0buf = s.ep0buf.write 0 ((transfer T first last j k s.toI2c).1.take n)

theorem wp_readTurn_calls {first last : Bool} {j : Byte} {n k : Nat} {s t : Fx2} {v : Byte × Byte}
    (hstore : (s.pecEnabled = true ∧ last = true ∧ k + 1 = j.toNat) ↔ n ≤ k) (hk : k < j.toNat)
    (h : CallsDone T first last j.toNat n s k v t) :
    wp (readTurn T j v) (CallsDone T first last j.toNat n s (k + 1)) (fun _ _ => False) t := by
  obtain ⟨i, rs⟩ := v
  obtain ⟨hi, hfirst, hlast, hi2c, hon, hbuf⟩ := h
  simp only at hi hfirst hlast
  have hlen : (transfer T first last j.toNat k s.toI2c).1.length = k := length_transfer k s.toI2c
  have hone : (j == 1) = (j.toNat == 1) := by
    rw [Bool.eq_iff_iff, beq_iff_eq, beq_iff_eq, ← BitVec.toNat_inj]
    rfl
  refine wp_mono (wp_readTurn_at i j rs t) ?_ fun _ _ h => h
  rw [hfirst, hlast, hi, hone]
  rintro v t' ⟨rfl, hi2c', hon', hbuf'⟩
  have hcall : i2cBytein T (first && k == 0) (first && k == 0 && j.toNat == 1)
      (last && k + 2 == j.toNat) (last && k + 1 == j.toNat) t.toI2c =
        byteinAt T first last j.toNat k (transfer T first last j.toNat k s.toI2c).2 := by
    rw [hi2c]
    rfl
  rw [hcall] at hi2c' hbuf'
  have hj := j.isLt
  refine ⟨?_, ?_, ?_, hi2c', hon'.trans hon, ?_⟩
  · rw [toNat_succ (by rw [hi]; omega), hi]
  · rw [hasFlag_clear]
    simp
  · rw [hasFlag_clearFirst, hlast]
  · rw [hbuf', hon, hbuf, transfer_succ]
    generalize (byteinAt T first last j.toNat k (transfer T first last j.toNat k s.toI2c).2).1 = x
    generalize (transfer T first last j.toNat k s.toI2c).1 = vs at hlen ⊢
    subst hlen
    rcases Nat.lt_or_ge vs.length n with hlt | hge
    · rw [if_neg (fun h => absurd (hstore.mp h) (Nat.not_le.mpr hlt)),
        List.take_of_length_le (by omega),
        List.take_of_length_le (by rw [List.length_append, List.length_singleton]; omega)]
      have hupd := Mem.update_write s.ep0buf 0 vs x
      rwa [Nat.zero_add] at hupd
    · rw [if_pos (hstore.mpr hge), List.take_append_of_le_length hge]

/-- The calls of a `READ` store its bytes, and the PEC byte is the only one more. -/
theorem Fx2.readCalls_store (s : Fx2) (setup : Setup) {k : Nat}
    (hk : k < (s.readCalls setup).toNat) :
    (s.pecEnabled = true ∧ hasFlag (toByte setup.index) readCmdLastRead = true ∧
      k + 1 = (s.readCalls setup).toNat) ↔ (toByte setup.value).toNat ≤ k := by
  have hn := (toByte setup.value).isLt
  rw [Fx2.readCalls] at hk ⊢
  split at hk
  · next hpec =>
    rw [if_pos hpec]
    have hmore : (toByte setup.value).toNat < 255 := by
      by_contra h
      have heq : toByte setup.value = 255 := BitVec.eq_of_toNat_eq (by
        show (toByte setup.value).toNat = 255
        omega)
      rw [heq] at hk
      exact absurd hk (Nat.not_lt_zero k)
    rw [toNat_succ hmore] at hk ⊢
    simp only [hpec, true_and]
    omega
  · next hpec =>
    rw [if_neg hpec]
    refine iff_of_false (fun h => hpec ⟨h.1, h.2.1⟩) ?_
    omega

/-- What a `READ` does: a row of calls, whose first values are the reply. -/
theorem read_ends {fuel : Nat} (hfuel : 256 ≤ fuel) (setup : Setup) (s : Fx2) :
    let row := transfer T (hasFlag (toByte setup.index) readCmdFirstRead)
      (hasFlag (toByte setup.index) readCmdLastRead) (s.readCalls setup).toNat
      (s.readCalls setup).toNat s.toI2c
    ∃ s', Handler.read T fuel setup.value setup.index s = .ok true s' ∧ s'.toI2c = row.2 ∧
      s'.ep0bcl = toByte setup.value ∧
      s'.ep0buf = s.ep0buf.write 0 (row.1.take (toByte setup.value).toNat) := by
  intro row
  have h : wp (Handler.read T fuel setup.value setup.index) (fun ok s' => ok = true ∧
      s'.toI2c = row.2 ∧ s'.ep0bcl = toByte setup.value ∧
      s'.ep0buf = s.ep0buf.write 0 (row.1.take (toByte setup.value).toNat))
      (fun _ _ => False) s := by
    have hj : (if s.pecEnabled = true ∧ hasFlag (toByte setup.index) readCmdLastRead = true then
        toByte setup.value + 1 else toByte setup.value) = s.readCalls setup := rfl
    have hlt := (s.readCalls setup).isLt
    simp only [Handler.read, wp_bind, wp_get, hj]
    refine wp_whileLoop (CallsDone T (hasFlag (toByte setup.index) readCmdFirstRead)
      (hasFlag (toByte setup.index) readCmdLastRead) (s.readCalls setup).toNat
      (toByte setup.value).toNat s) (s.readCalls setup).toNat ?_ ?_ (by omega) ?_
    · intro k hk v t h
      refine ⟨?_, wp_readTurn_calls (s.readCalls_store setup hk) hk h⟩
      rw [decide_eq_true_eq, BitVec.lt_def, h.i]
      exact hk
    · intro v t h
      refine ⟨?_, ?_⟩
      · rw [decide_eq_false_iff_not, BitVec.lt_def, h.i]
        exact Nat.lt_irrefl _
      · rw [wp_setEp0bcl, wp_pure]
        exact ⟨rfl, h.i2c, rfl, h.ep0buf⟩
    · exact ⟨rfl, by simp, rfl, rfl, rfl, by simp [transfer]⟩
  obtain ⟨ok, s', hrun, rfl, hs'⟩ := exists_run_of_wp h
  exact ⟨s', hrun, hs'⟩

/-! ## `READ_BLOCK` with data outstanding -/

/-- The piece of `temp` the next `READ_BLOCK` hands out, with the `BYTE` index of its loop. -/
def Fx2.piece (s : Fx2) : List Byte :=
  (List.range (min 64 (s.templen - s.tempptr).toNat)).map fun k =>
    s.temp (toByte s.tempptr + BitVec.ofNat 8 k).toNat

@[simp] theorem Fx2.length_piece (s : Fx2) :
    s.piece.length = min 64 (s.templen - s.tempptr).toNat := by
  simp [Fx2.piece]

theorem readBlockNext_piece {fuel : Nat} (hfuel : 65 ≤ fuel) (s : Fx2) :
    ∃ s', readBlockNext fuel s = .ok true s' ∧ s'.toI2c = s.toI2c ∧
      s'.ep0buf = s.ep0buf.write 0 s.piece ∧ s'.ep0bcl.toNat = s.piece.length := by
  have hlen : (if 64 < s.templen - s.tempptr then (64 : Byte)
      else toByte (s.templen - s.tempptr)).toNat = s.piece.length := by
    rw [s.length_piece]
    split
    · next h =>
      have hlt : 64 < (s.templen - s.tempptr).toNat := h
      rw [Nat.min_eq_left (Nat.le_of_lt hlt)]
      rfl
    · next h =>
      rw [BitVec.lt_def] at h
      have h64 : (64 : Word).toNat = 64 := rfl
      rw [Nat.min_eq_right (by omega), toByte, BitVec.toNat_setWidth]
      omega
  have hle : s.piece.length ≤ 64 := by
    rw [s.length_piece]
    omega
  have h : wp (readBlockNext fuel) (fun ok s' => ok = true ∧ s'.toI2c = s.toI2c ∧
      s'.ep0buf = s.ep0buf.write 0 s.piece ∧ s'.ep0bcl.toNat = s.piece.length)
      (fun _ _ => False) s := by
    simp only [readBlockNext, wp_bind, wp_get]
    generalize (if 64 < s.templen - s.tempptr then (64 : Byte)
      else toByte (s.templen - s.tempptr)) = L at hlen
    refine wp_whileLoop (fun k v t => v = (toByte s.tempptr + BitVec.ofNat 8 k, BitVec.ofNat 8 k) ∧
      t.toI2c = s.toI2c ∧ t.temp = s.temp ∧ t.ep0buf = s.ep0buf.write 0 (s.piece.take k)) L.toNat
      ?_ ?_ (by omega) ?_
    · rintro k hk v t ⟨rfl, hi2c, htemp, hbuf⟩
      have hk8 : (BitVec.ofNat 8 k).toNat = k := by
        simp
        omega
      refine ⟨by rw [decide_eq_true_eq, BitVec.lt_def, hk8]; exact hk, ?_⟩
      simp only [wp_bind, wp_temp, wp_setEp0buf, wp_pure, hk8, htemp, hbuf]
      have hget : s.piece[k]? = some (s.temp (toByte s.tempptr + BitVec.ofNat 8 k).toNat) := by
        rw [hlen, s.length_piece] at hk
        rw [Fx2.piece, List.getElem?_map, List.getElem?_range hk]
        rfl
      have hupd := Mem.update_write s.ep0buf 0 (s.piece.take k)
        (s.temp (toByte s.tempptr + BitVec.ofNat 8 k).toNat)
      have htake : (s.piece.take k).length = k := by
        rw [List.length_take]
        omega
      rw [htake, Nat.zero_add] at hupd
      refine ⟨?_, hi2c, trivial, ?_⟩
      · rw [BitVec.ofNat_add, BitVec.add_assoc]
        rfl
      · rw [hupd, List.take_add_one, hget]
        rfl
    · rintro v t ⟨rfl, hi2c, -, hbuf⟩
      refine ⟨by simp, ?_⟩
      simp only [wp_modify, wp_setEp0bcl, wp_pure]
      rw [hlen, List.take_length] at hbuf
      refine ⟨trivial, ?_⟩
      split <;> exact ⟨hi2c, hbuf, hlen⟩
    · exact ⟨by simp, rfl, rfl, by simp⟩
  obtain ⟨ok, s', hrun, rfl, hs'⟩ := exists_run_of_wp h
  exact ⟨s', hrun, hs'⟩

theorem readBlock_of_more (T : Target) (smbAddr smbCmd : Word) (fuel : Nat) {s : Fx2}
    (hmore : s.expire.templen ≠ s.expire.tempptr) :
    readBlock T fuel smbAddr smbCmd s = readBlockNext fuel s.expire := by
  have hpos : 0 < s.expire.templen - s.expire.tempptr := by
    rw [BitVec.lt_def]
    refine Nat.pos_of_ne_zero fun h => hmore ?_
    exact sub_eq_zero.mp (BitVec.eq_of_toNat_eq h)
  have hrun : readBlock T fuel smbAddr smbCmd s =
      (if 0 < s.expire.templen - s.expire.tempptr then readBlockNext fuel
      else labels (readBlockFresh T fuel smbAddr smbCmd) (readBlockFail T)) s.expire := rfl
  rw [hrun, if_pos hpos]

/-- A request with data outstanding hands out a piece of it. -/
theorem readBlock_next_gives (T : Target) (smbAddr smbCmd : Word) {fuel : Nat} (hfuel : 256 ≤ fuel)
    {s : Fx2} (hmore : s.expire.templen ≠ s.expire.tempptr) :
    ∃ s', readBlock T fuel smbAddr smbCmd s = .ok true s' ∧ s'.toI2c = s.toI2c ∧
      s'.ep0buf = s.ep0buf.write 0 s.expire.piece ∧ s'.ep0bcl.toNat = s.expire.piece.length := by
  rw [readBlock_of_more T smbAddr smbCmd fuel hmore]
  obtain ⟨s', hgives, hi2c, hbuf, hbcl⟩ := readBlockNext_piece
    (show 65 ≤ fuel by omega) s.expire
  exact ⟨s', hgives, hi2c.trans Fx2.expire_toI2c, by rw [hbuf, Fx2.expire_ep0buf], hbcl⟩

end

/-! ## Requests -/

/-- The requests that return bytes of the target. -/
inductive DataRequest where
  | read (kind : ReadKind)
  | arbitrary
deriving DecidableEq, Repr

/-- The request code. -/
def DataRequest.code : DataRequest → Byte
  | read kind => kind.code
  | arbitrary => smbRead

/-- What a request hands out of bytes that came in before it: the next piece of a long block,
or the byte an arbitrary read has left in `I2DAT`. -/
def Fx2.pending (s : Fx2) (setup : Setup) : DataRequest → List Byte
  | .read .block => if s.expire.templen = s.expire.tempptr then [] else s.expire.piece
  | .read _ => []
  | .arbitrary =>
      if toByte setup.value = 0 then []
      else waiting (hasFlag (toByte setup.index) readCmdFirstRead) s.toI2c

/-- A request that reports success has lost no byte, and its reply is made of bytes received:
those that were pending and those of this request, in order. -/
def Genuine (pending : List Byte) (s : Fx2) (ok : Bool) (s' : Fx2) : Prop :=
  ok = true → ∃ ext, Extends s.toI2c ext s'.toI2c ∧ .lost ∉ ext ∧
    pending <:+: recvBytes s.trace ∧ s'.reply 255 <+: pending ++ recvBytes ext

/-- When a read request is genuine, from the bus `b` on which the target is addressed: it
refuses the count, or the packet error code of what is handed over is wrong, or the bytes of
the reply get through.  The count 254, which wraps, is only noticed by a PEC. -/
def Fx2.SoundFrom (s : Fx2) (T : Target) (kind : ReadKind) (smbAddr smbCmd : Word) (b : I2c) :
    Prop :=
  let c := (countCall T b).1
  let n := kind.calls s.pecEnabled c
  if kind = .block ∧ (c = 0 ∨ c = 0xFF) then True
  else if kind = .block ∧ c = 0xFE then
    s.pecEnabled = true ∧ crc8 (readAddress smbAddr smbCmd) ≠ 0
  else (s.pecEnabled = true ∧ PecWrong smbAddr smbCmd (transfer T true true n n b).1) ∨
    Reaches T true true n (kind.replies c) b

/-- When a read request is genuine: always, if the target is not addressed. -/
def Fx2.SoundRead (s : Fx2) (T : Target) (kind : ReadKind) (smbAddr smbCmd : Word) : Prop :=
  ∀ b, addressRead T smbAddr smbCmd s.toI2c = (some true, b) →
    s.SoundFrom T kind smbAddr smbCmd b

/-- When a request is genuine.  A piece of a block, and the byte a read goes on from, must have
been received before.  An arbitrary read never fails, so its bytes must get through; the calls
it makes must not wrap, as 255 bytes and a PEC do. -/
def Fx2.Sound (s : Fx2) (T : Target) (setup : Setup) (request : DataRequest) : Prop :=
  match request with
  | .read kind =>
      if kind = .block ∧ s.expire.templen ≠ s.expire.tempptr then
        s.expire.piece <:+: recvBytes s.trace
      else s.SoundRead T kind setup.value setup.index
  | .arbitrary =>
      s.pending setup .arbitrary <:+: recvBytes s.trace ∧
      (toByte setup.value).toNat ≤ (s.readCalls setup).toNat ∧
      (s.readCalls setup ≠ 0 → Reaches T (hasFlag (toByte setup.index) readCmdFirstRead)
        (hasFlag (toByte setup.index) readCmdLastRead) (s.readCalls setup).toNat
        (toByte setup.value).toNat s.toI2c)

section

variable {T : Target} {smbAddr smbCmd : Word} {s s' : Fx2} {ok : Bool} {kind : ReadKind}

/-- Nothing is received or lost between two states. -/
def Silent (s s' : I2c) : Prop := ∃ ext, Extends s ext s' ∧ recvBytes ext = [] ∧ .lost ∉ ext

theorem Silent.trans {s s' s'' : I2c} (h : Silent s s') (h' : Silent s' s'') : Silent s s'' := by
  obtain ⟨ext, hext, hrecv, hlost⟩ := h
  obtain ⟨ext', hext', hrecv', hlost'⟩ := h'
  refine ⟨ext ++ ext', hext.trans hext', by rw [recvBytes_append, hrecv, hrecv']; rfl, ?_⟩
  exact fun h => (List.mem_append.mp h).elim hlost hlost'

theorem i2cStart_silent (s : I2c) : Silent s (i2cStart T s).2 := by
  obtain ⟨k, hk⟩ := i2cStartTries_extends T i2cMaxRetries s
  refine ⟨_, hk, ?_, ?_⟩
  · split <;> simp [recvBytes]
  · split <;> simp

theorem i2cByteout_silent (b : Byte) (s : I2c) : Silent s (i2cByteout T b s).2 := by
  obtain ⟨a, -, hext⟩ := i2cByteout_extends T b s
  refine ⟨_, hext, ?_, ?_⟩
  · cases a <;> simp [recvBytes]
  · cases a <;> simp

theorem sendAll_silent (bs : List Byte) (s : I2c) : Silent s (sendAll T bs s).2 := by
  induction bs generalizing s with
  | nil => exact ⟨[], Extends.refl s, rfl, by simp⟩
  | cons b bs ih =>
      rw [sendAll]
      split
      · exact (i2cByteout_silent b s).trans (ih _)
      · exact i2cByteout_silent b s

variable (T smbAddr smbCmd) in
/-- Addressing the target receives nothing. -/
theorem addressRead_silent (s : I2c) : Silent s (addressRead T smbAddr smbCmd s).2 := by
  have hrestart : ∀ b, Silent b (i2cRestart b) := fun b => ⟨[.restart], rfl, rfl, by simp⟩
  have hstart := i2cStart_silent (T := T) s
  have hsend := sendAll_silent (T := T) [toByte smbAddr, toByte smbCmd] (i2cStart T s).2
  rw [addressRead]
  split
  · dsimp only
    split
    · exact ((hstart.trans hsend).trans (hrestart _)).trans (i2cByteout_silent _ _)
    · exact hstart.trans hsend
  · exact hstart

/-- A reply cannot be longer than what was received and what was pending. -/
theorem Genuine.length_le {pending : List Byte} {ext : List Event} (h : Genuine pending s true s')
    (hext : Extends s.toI2c ext s'.toI2c) :
    (s'.reply 255).length ≤ pending.length + (recvBytes ext).length := by
  obtain ⟨ext', hext', -, -, hpre⟩ := h rfl
  obtain rfl := hext.unique hext'
  rw [← List.length_append]
  exact hpre.length_le

theorem ReadKind.replies_le_calls (on : Bool) (c : Byte) :
    kind.replies c ≤ kind.calls on c := by
  cases kind <;> simp [ReadKind.replies, ReadKind.calls]

theorem soundRead_iff {r : Option Bool} {b : I2c}
    (haddr : addressRead T smbAddr smbCmd s.toI2c = (r, b)) :
    s.SoundRead T kind smbAddr smbCmd ↔ (r = some true → s.SoundFrom T kind smbAddr smbCmd b) := by
  refine ⟨fun h hr => h b (by rw [haddr, hr]), fun h b' hb' => ?_⟩
  rw [haddr, Prod.mk.injEq] at hb'
  rw [← hb'.2]
  exact h hb'.1

/-- For a count the request goes on with. -/
theorem soundFrom_iff {b : I2c}
    (hgood : kind = .block → (countCall T b).1 ≠ 0 ∧ (countCall T b).1 < 0xFE) :
    s.SoundFrom T kind smbAddr smbCmd b ↔
      (s.pecEnabled = true ∧ PecWrong smbAddr smbCmd (transfer T true true
        (kind.calls s.pecEnabled (countCall T b).1)
        (kind.calls s.pecEnabled (countCall T b).1) b).1) ∨
      Reaches T true true (kind.calls s.pecEnabled (countCall T b).1)
        (kind.replies (countCall T b).1) b := by
  rw [Fx2.SoundFrom]
  rw [if_neg, if_neg]
  · rintro ⟨hkind, hc⟩
    have hlt := (hgood hkind).2
    rw [hc] at hlt
    exact absurd hlt (by decide)
  · rintro ⟨hkind, h0 | hff⟩
    · exact (hgood hkind).1 h0
    · have hlt := (hgood hkind).2
      rw [hff] at hlt
      exact absurd hlt (by decide)

/-- The first call of a block read receives two bytes at most. -/
theorem countCall_receives (b : I2c) :
    ∃ ext, Extends b ext (countCall T b).2 ∧ (recvBytes ext).length ≤ 2 := by
  obtain ⟨v, b', ext, hrun, hext, hmoves, -⟩ := i2cBytein_moves T true false false false b
  have hcount : countCall T b = (v, b') := hrun
  rw [hcount]
  refine ⟨ext, hext, ?_⟩
  by_cases hlost : .lost ∈ ext
  · have := hmoves.short hlost
    simp [waiting] at this
    omega
  · have := congrArg List.length (hmoves.whole hlost)
    simp [waiting, certain] at this
    omega

/-- A read request is genuine exactly when it is sound. -/
theorem ReadEnd.isGenuine_iff (h : ReadEnd T kind smbAddr smbCmd s ok s') :
    Genuine [] s ok s' ↔ s.SoundRead T kind smbAddr smbCmd := by
  have hfail : Genuine [] s false s' := fun h => Bool.noConfusion h
  obtain ⟨ext₀, hext₀, hrecv₀, hlost₀⟩ :=
    addressRead_silent T smbAddr smbCmd s.toI2c
  cases h with
  | noStart haddr _ _ => exact iff_of_true hfail ((soundRead_iff haddr).mpr fun h => by simp at h)
  | nack haddr _ _ => exact iff_of_true hfail ((soundRead_iff haddr).mpr fun h => by simp at h)
  | refused haddr hkind hcount hbad _ _ =>
      refine iff_of_true hfail ((soundRead_iff haddr).mpr fun _ => ?_)
      rw [Fx2.SoundFrom, hcount]
      dsimp only
      rw [if_pos ⟨hkind, hbad⟩]
      trivial
  | @wrapped b b' _ _ haddr hkind hcount hok htrace _ hbcl =>
      have hsound : s.SoundFrom T kind smbAddr smbCmd b ↔
          s.pecEnabled = true ∧ crc8 (readAddress smbAddr smbCmd) ≠ 0 := by
        rw [Fx2.SoundFrom, hcount]
        dsimp only
        rw [if_neg (fun h => absurd h.2 (by decide)), if_pos ⟨hkind, rfl⟩]
      rw [soundRead_iff haddr, hsound]
      cases ok with
      | false =>
          refine iff_of_true hfail fun _ => ?_
          simpa using hok
      | true =>
          refine iff_of_false (fun h => ?_) (fun h => (h rfl).2 (by simpa [(h rfl).1] using hok))
          -- The reply would have 255 bytes, and two at most were received.
          obtain ⟨ext₁, hext₁, hlen₁⟩ := countCall_receives (T := T) b
          rw [haddr] at hext₀
          rw [hcount] at hext₁
          have hext : Extends s.toI2c (ext₀ ++ ext₁) s'.toI2c := htrace.trans (hext₀.trans hext₁)
          have hlen := h.length_le hext
          rw [Fx2.reply, Mem.length_read, hbcl rfl, recvBytes_append, hrecv₀] at hlen
          have h255 : min (255 : Byte).toNat 255 = 255 := rfl
          rw [h255] at hlen
          simp at hlen
          omega
  | @mismatch b b' vs _ haddr hgood hrow hon hwrong _ _ =>
      refine iff_of_true hfail
        ((soundRead_iff haddr).mpr fun _ => (soundFrom_iff hgood).mpr (.inl ?_))
      rw [hrow]
      exact ⟨hon, hwrong⟩
  | @done b b' vs _ haddr hgood hrow hright htrace _ hbcl hreply =>
      have hgen := transfer_genuine T true true
        (kind.calls_pos s.pecEnabled (countCall T b).1)
        (kind.replies_le_calls s.pecEnabled (countCall T b).1) b
      rw [soundRead_iff haddr, imp_iff_right rfl, soundFrom_iff hgood, or_iff_right, ← hgen, hrow]
      · rw [haddr] at hext₀
        refine ⟨fun h => ?_, ?_⟩
        · obtain ⟨ext, hext, hlost, -, hpre⟩ := h rfl
          obtain ⟨ext₁, hext₁, -⟩ := transfer_frees (T := T)
            (kind.calls_pos s.pecEnabled (countCall T b).1) b
          rw [hrow] at hext₁
          obtain rfl := hext.unique (htrace.trans (hext₀.trans hext₁))
          rw [hreply, recvBytes_append, hrecv₀] at hpre
          exact ⟨ext₁, hext₁, fun h => hlost (List.mem_append_right _ h),
            by simpa [waiting] using hpre⟩
        · rintro ⟨ext, hext, hlost, hpre⟩ _
          refine ⟨ext₀ ++ ext, htrace.trans (hext₀.trans hext),
            fun h => (List.mem_append.mp h).elim hlost₀ hlost, List.nil_infix, ?_⟩
          rw [hreply, recvBytes_append, hrecv₀]
          simpa [waiting] using hpre
      · rw [hrow]
        exact fun h => hright h.1 h.2

/-- The calls of a `READ` are enough for its bytes, unless their number wraps. -/
theorem Fx2.le_readCalls (s : Fx2) (setup : Setup) (h : s.readCalls setup ≠ 0) :
    (toByte setup.value).toNat ≤ (s.readCalls setup).toNat := by
  rw [Fx2.readCalls] at h ⊢
  split
  · next hpec =>
    rw [if_pos hpec] at h
    have hmore : (toByte setup.value).toNat < 255 := by
      by_contra hfull
      have hn := (toByte setup.value).isLt
      have heq : toByte setup.value = 255 := BitVec.eq_of_toNat_eq (by
        show (toByte setup.value).toNat = 255
        omega)
      rw [heq] at h
      exact h rfl
    rw [toNat_succ hmore]
    omega
  · exact Nat.le_refl _

/-- The number of calls is 0 for no byte, or because it wraps. -/
theorem Fx2.readCalls_zero (s : Fx2) (setup : Setup) (h : s.readCalls setup = 0) :
    toByte setup.value = 0 ∨ toByte setup.value = 255 := by
  rw [Fx2.readCalls] at h
  split at h
  · refine .inr ?_
    have hminus : toByte setup.value = toByte setup.value + 1 - 1 := by simp
    rw [hminus, h]
    rfl
  · exact .inl h

theorem length_pending_le (s : Fx2) (setup : Setup) : (s.pending setup .arbitrary).length ≤ 1 := by
  rw [Fx2.pending]
  split
  · simp
  · rw [waiting]
    split <;> simp

/-- A `READ` is genuine exactly when it is sound. -/
theorem read_genuine_iff {setup : Setup}
    (hi2c : s'.toI2c = (transfer T (hasFlag (toByte setup.index) readCmdFirstRead)
      (hasFlag (toByte setup.index) readCmdLastRead) (s.readCalls setup).toNat
      (s.readCalls setup).toNat s.toI2c).2)
    (hbcl : s'.ep0bcl = toByte setup.value)
    (hbuf : s'.ep0buf = s.ep0buf.write 0 ((transfer T
      (hasFlag (toByte setup.index) readCmdFirstRead) (hasFlag (toByte setup.index) readCmdLastRead)
      (s.readCalls setup).toNat (s.readCalls setup).toNat s.toI2c).1.take
        (toByte setup.value).toNat)) :
    Genuine (s.pending setup .arbitrary) s true s' ↔ s.Sound T setup .arbitrary := by
  have hn := (toByte setup.value).isLt
  have hcell : s'.reply 255 = s'.ep0buf.read 0 (toByte setup.value).toNat := by
    rw [Fx2.reply, hbcl, Nat.min_eq_left (by omega)]
  rw [Fx2.Sound]
  by_cases hcalls : s.readCalls setup = 0
  · rw [hcalls] at hi2c hbuf ⊢
    have hnone : Extends s.toI2c [] s'.toI2c := by
      rw [hi2c]
      exact Extends.refl _
    rcases s.readCalls_zero setup hcalls with hzero | hfull
    · have hpending : s.pending setup .arbitrary = [] := by rw [Fx2.pending, if_pos hzero]
      rw [hzero] at hcell ⊢
      rw [hpending]
      refine iff_of_true (fun _ => ⟨[], hnone, by simp, List.nil_infix, ?_⟩)
        ⟨List.nil_infix, Nat.le_refl _, fun h => absurd rfl h⟩
      rw [hcell]
      exact List.nil_prefix
    · -- The number of calls wraps, so the reply is what `EP0BUF` held before.
      refine iff_of_false (fun h => ?_) (fun h => absurd h.2.1 (by rw [hfull]; decide))
      have hlen := h.length_le hnone
      have hpending := length_pending_le s setup
      rw [hcell, Mem.length_read, hfull] at hlen
      have h255 : (255 : Byte).toNat = 255 := rfl
      rw [h255] at hlen
      simp [recvBytes] at hlen
      omega
  · have hpos : 0 < (s.readCalls setup).toNat := by
      refine Nat.pos_of_ne_zero fun h => hcalls (BitVec.eq_of_toNat_eq h)
    have hle := s.le_readCalls setup hcalls
    rw [← transfer_genuine _ _ _ hpos hle, hi2c.symm]
    have hreply : s'.reply 255 = (transfer T (hasFlag (toByte setup.index) readCmdFirstRead)
        (hasFlag (toByte setup.index) readCmdLastRead) (s.readCalls setup).toNat
        (s.readCalls setup).toNat s.toI2c).1.take (toByte setup.value).toNat := by
      have hlen : (transfer T (hasFlag (toByte setup.index) readCmdFirstRead)
          (hasFlag (toByte setup.index) readCmdLastRead) (s.readCalls setup).toNat
          (s.readCalls setup).toNat s.toI2c).1.length = (s.readCalls setup).toNat :=
        length_transfer _ _
      rw [hcell, hbuf, Mem.read_write_take _ _ (by rw [List.length_take, hlen]; omega),
        List.take_take,
        Nat.min_self]
    rw [← hreply]
    -- Without a byte to return nothing needs to be pending.
    have hsame : ∀ ext, s'.reply 255 <+: s.pending setup .arbitrary ++ recvBytes ext ↔
        s'.reply 255 <+: waiting (hasFlag (toByte setup.index) readCmdFirstRead) s.toI2c ++
          recvBytes ext := by
      intro ext
      rw [Fx2.pending]
      split
      · next hzero =>
        rw [hcell, hzero]
        exact iff_of_true List.nil_prefix List.nil_prefix
      · exact Iff.rfl
    refine ⟨fun h => ?_, ?_⟩
    · obtain ⟨ext, hext, hlost, hpending, hpre⟩ := h rfl
      exact ⟨hpending, hle, fun _ => ⟨ext, hext, hlost, (hsame ext).mp hpre⟩⟩
    · rintro ⟨hpending, -, h⟩ _
      obtain ⟨ext, hext, hlost, hpre⟩ := h hcalls
      exact ⟨ext, hext, hlost, hpending, (hsame ext).mpr hpre⟩

end

/-- From any state and for any target: a request returns only bytes that were received, and
fails if one is lost, exactly when it is sound. -/
theorem genuine_iff (T : Target) {fuel : Nat} (hfuel : 256 ≤ fuel) (request : DataRequest)
    (setup : Setup) (s : Fx2) :
    (∃ ok s', handleVendorcommand T fuel request.code setup s = .ok ok s' ∧
      Genuine (s.pending setup request) s ok s') ↔ s.Sound T setup request := by
  have hrun : ∀ (ok : Bool) (s' : Fx2),
      handleVendorcommand T fuel request.code setup s = .ok ok s' →
      ((∃ ok s', handleVendorcommand T fuel request.code setup s = .ok ok s' ∧
        Genuine (s.pending setup request) s ok s') ↔
          Genuine (s.pending setup request) s ok s') := by
    intro ok s' hrun
    refine ⟨?_, fun h => ⟨ok, s', hrun, h⟩⟩
    rintro ⟨ok₁, s₁, hrun₁, h⟩
    obtain ⟨rfl, rfl⟩ := EStateM.Result.ok.inj (hrun.symm.trans hrun₁)
    exact h
  cases request with
  | arbitrary =>
      obtain ⟨s', hread, hi2c, hbcl, hbuf⟩ := read_ends (T := T) hfuel setup s
      rw [hrun true s' hread]
      exact read_genuine_iff hi2c hbcl hbuf
  | read kind =>
      rw [Fx2.Sound]
      by_cases hnext : kind = .block ∧ s.expire.templen ≠ s.expire.tempptr
      · obtain ⟨rfl, hmore⟩ := hnext
        obtain ⟨s', hgives, hi2c, hbuf, hbcl⟩ :=
          readBlock_next_gives T setup.value setup.index hfuel hmore
        rw [hrun true s' hgives, if_pos ⟨rfl, hmore⟩, Fx2.pending, if_neg hmore]
        have hnone : Extends s.toI2c [] s'.toI2c := by
          rw [hi2c]
          exact Extends.refl _
        have hle : s.expire.piece.length ≤ 255 := by
          rw [Fx2.length_piece]
          omega
        have hreply : s'.reply 255 = s.expire.piece := by
          rw [Fx2.reply, hbuf, hbcl, Nat.min_eq_left hle, Mem.read_write]
        refine ⟨fun h => ?_, fun h _ => ⟨[], hnone, by simp, h, ?_⟩⟩
        · obtain ⟨_, -, -, hpending, -⟩ := h rfl
          exact hpending
        · rw [hreply]
          exact List.prefix_append _ _
      · obtain ⟨ok, s', hread, hend⟩ :=
          readRequest_ends T hfuel kind setup (s := s) (fun hkind => by
          by_contra hmore
          exact hnext ⟨hkind, hmore⟩)
        rw [hrun ok s' hread, if_neg hnext]
        have hpending : s.pending setup (.read kind) = [] := by
          cases kind with
          | byte => rfl
          | word => rfl
          | block =>
              rw [Fx2.pending, if_pos]
              by_contra hmore
              exact hnext ⟨rfl, hmore⟩
        rw [hpending]
        exact hend.isGenuine_iff

/-- A byte that arrives is returned. -/
theorem genuine_byte : ∃ ok s', handleVendorcommand (Target.answers [5]) 256
    (DataRequest.read .byte).code ⟨0x16, 8⟩ { Fx2.init with pecEnabled := false } = .ok ok s' ∧
      Genuine ({ Fx2.init with pecEnabled := false }.pending ⟨0x16, 8⟩ (.read .byte))
        { Fx2.init with pecEnabled := false } ok s' := by
  refine (genuine_iff (Target.answers [5]) (Nat.le_refl 256) (.read .byte) ⟨0x16, 8⟩ _).mpr ?_
  intro b haddr
  obtain rfl : _ = b := congrArg Prod.snd haddr
  refine (soundFrom_iff fun h => ReadKind.noConfusion h).mpr (.inr ⟨⟨_, rfl, ?_⟩, fun _ _ _ => rfl⟩)
  decide +kernel

/-- A target that ACKs everything and sends no byte. -/
def Target.mute : Target where
  start _ := false
  out _ _ := (0, .ack)
  recv _ := (11, 0)
  stopOver _ := 0
  stopShows _ := 0

/-- A byte that does not arrive is returned as 0. -/
theorem not_genuine_mute : ¬ ∃ ok s', handleVendorcommand Target.mute 256
    (DataRequest.read .byte).code ⟨0x16, 8⟩ { Fx2.init with pecEnabled := false } = .ok ok s' ∧
      Genuine ({ Fx2.init with pecEnabled := false }.pending ⟨0x16, 8⟩ (.read .byte))
        { Fx2.init with pecEnabled := false } ok s' := by
  rintro ⟨ok, s', hrun, hgenuine⟩
  obtain ⟨ok₁, s₁, hrun₁, hend⟩ := readRequest_ends Target.mute (Nat.le_refl 256) .byte ⟨0x16, 8⟩
    (s := { Fx2.init with pecEnabled := false }) (fun h => ReadKind.noConfusion h)
  obtain ⟨rfl, rfl⟩ := EStateM.Result.ok.inj (hrun.symm.trans hrun₁)
  have hsound := (soundRead_iff (r := some true) (b := (addressRead Target.mute 0x16 8
    Fx2.init.toI2c).2) rfl).mp (hend.isGenuine_iff.mp hgenuine) rfl
  rcases (soundFrom_iff fun h => ReadKind.noConfusion h).mp hsound with
    ⟨hon, -⟩ | ⟨⟨ext, hext, hlost⟩, -⟩
  · exact Bool.noConfusion hon
  · have hbus : ext = [.lastrd, .fetch 0, .lost, .stop] := hext.unique rfl
    exact hlost (by rw [hbus]; decide)

end Smbusb
