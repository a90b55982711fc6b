import Smbusb.Firmware.DeviceFrames
import Smbusb.Firmware.ReadRequests
import Smbusb.Firmware.ReadBlockData

/-!
# Reads from a device

What the read requests get from a device, on any line.

*Addressing.*  The device works out its answer when it is addressed for the second time.  If that
byte is not ACKed in time, the read may have been carried out all the same
(`after_addressRead`).

*Bytes.*  The calls of `i2c_bytein` hand over the bytes the device sends, in order
(`after_transfer`).  So a request gets the answer and its packet error code, and the code is right:
of the ways a read request can end (`ReadEnd`), three are left (`readEnd_cases`).
-/

namespace Smbusb

open Logic Prog Fw

/-- The format a read request expects. -/
def ReadKind.format : ReadKind → Format
  | byte => .byte
  | word => .word
  | block => .block

theorem toByte_succ (w : Word) : toByte (w + 1) = toByte w + 1 := by
  simp [toByte, BitVec.setWidth_add]

namespace BusDevice

variable {D : Type} {dev : BusDevice D} {line : BusLine} {d m : D} {σ : Slave D}

/-! ## Addressing -/

variable {smbAddr smbCmd : Word} {cmd : Byte} {f : Format}

/-- A command that is not a send on its own is no write. -/
theorem Broken.addressed (hcmd : dev.format cmd = some f) (hf : f ≠ .send) {σ' : Slave D}
    (h : dev.Broken [dev.addr, cmd] ⟨.begun, m⟩ σ') : σ' = ⟨.idle, m⟩ := by
  have hmore : f.more [] = true := by
    cases f with
    | send => exact absurd rfl hf
    | byte => rfl
    | word => rfl
    | block => rfl
  obtain ⟨pre, hpre, hend⟩ := h
  have hcases : pre = [] ∨ pre = [dev.addr] ∨ pre = [dev.addr, cmd] := by
    rw [List.prefix_cons_iff] at hpre
    obtain rfl | ⟨p, rfl, hp⟩ := hpre
    · exact .inl rfl
    rw [List.prefix_cons_iff] at hp
    obtain rfl | ⟨p', rfl, hp'⟩ := hp
    · exact .inr (.inl rfl)
    · rw [List.prefix_nil] at hp'
      exact .inr (.inr (by rw [hp']))
  obtain rfl | rfl | rfl := hcases
  · obtain rfl | rfl := hend <;> rfl
  · obtain rfl | rfl := hend <;> simp [takeAll, take, drop, BusDevice.stop]
  · obtain rfl | rfl := hend <;> simp [takeAll, take, hcmd, drop, BusDevice.stop, hmore]

/-- The address phase of a read. -/
theorem after_addressRead (haddr : toByte smbAddr = dev.addr)
    (hcmd : dev.format (toByte smbCmd) = some f) (hf : f ≠ .send) (s : I2c)
    (hσ : dev.after line d s.trace = σ) {r : Option Bool} {b : I2c}
    (hr : addressRead (dev.target line d) smbAddr smbCmd s = (r, b)) :
    (r = none → dev.after line d b.trace = drop σ) ∧
    (r = some false → Called dev.object (.read (toByte smbCmd)) σ.mem none
        (dev.after line d b.trace).mem ∧ (dev.after line d b.trace).phase = .idle) ∧
    (r = some true → dev.after line d b.trace =
      ⟨.sending (dev.reply (toByte smbCmd) f σ.mem), (dev.read (toByte smbCmd) σ.mem).2⟩) := by
  obtain ⟨hyes, hno⟩ := after_start s hσ
  rw [addressRead] at hr
  by_cases hstart : (i2cStart (dev.target line d) s).1 = true
  swap
  · rw [if_neg hstart] at hr
    obtain ⟨rfl, rfl⟩ := Prod.mk.inj hr
    exact ⟨fun _ => hno (Bool.eq_false_iff.mpr hstart), fun h => absurd h (by decide),
      fun h => absurd h (by decide)⟩
  rw [if_pos hstart, haddr] at hr
  rcases after_sendAll [dev.addr, toByte smbCmd] _ (hyes hstart) with
    ⟨hok, -, hend⟩ | ⟨hfail, hbroken⟩
  swap
  · rw [if_neg (by rw [hfail]; exact Bool.false_ne_true)] at hr
    obtain ⟨rfl, rfl⟩ := Prod.mk.inj hr
    rw [hbroken.addressed hcmd hf]
    exact ⟨fun h => absurd h (by decide), fun _ => ⟨.missed, rfl⟩, fun h => absurd h (by decide)⟩
  rw [if_pos hok] at hr
  have htaken : dev.takeAll [dev.addr, toByte smbCmd] ⟨.begun, σ.mem⟩ =
      ⟨.writing (toByte smbCmd) f [], σ.mem⟩ := by
    simp only [takeAll_cons, takeAll_nil, take, if_true, hcmd]
  have hrestart : dev.after line d (i2cRestart
      (sendAll (dev.target line d) [dev.addr, toByte smbCmd]
        (i2cStart (dev.target line d) s).2).2).trace =
      ⟨.restarted (toByte smbCmd) f, σ.mem⟩ := by
    rw [i2cRestart, I2c.log_trace, after_snoc, hend, htaken]
    rfl
  rw [toByte_succ, haddr] at hr
  have htake : dev.take (dev.addr + 1) ⟨.restarted (toByte smbCmd) f, σ.mem⟩ =
      ⟨.sending (dev.reply (toByte smbCmd) f σ.mem), (dev.read (toByte smbCmd) σ.mem).2⟩ := by
    simp only [take, if_true]
  rcases after_byteout (dev.addr + 1) _ hrestart with ⟨hack, -, hafter⟩ | ⟨hnack, hbroken⟩
  · obtain ⟨rfl, rfl⟩ := Prod.mk.inj hr
    rw [hack, hafter, htake]
    exact ⟨fun h => absurd h (by decide), fun h => absurd h (by decide), fun _ => rfl⟩
  · obtain ⟨rfl, rfl⟩ := Prod.mk.inj hr
    rw [hnack]
    refine ⟨fun h => absurd h (by decide), fun _ => ⟨?_, hbroken.phase⟩,
      fun h => absurd h (by decide)⟩
    obtain ⟨pre, hpre, hmem⟩ := hbroken
    rw [List.prefix_cons_iff] at hpre
    obtain rfl | ⟨p, rfl, hp⟩ := hpre
    · obtain hmem | hmem := hmem <;> rw [hmem] <;> exact .missed
    · rw [List.prefix_nil] at hp
      rw [hp, takeAll_cons, takeAll_nil, htake] at hmem
      obtain hmem | hmem := hmem <;> rw [hmem] <;> exact .unseen

/-- On a calm line the device is addressed. -/
theorem calm_addressRead (hcalm : line.Calm) (haddr : toByte smbAddr = dev.addr)
    (hcmd : dev.format (toByte smbCmd) = some f) (s : I2c) :
    (addressRead (dev.target line d) smbAddr smbCmd s).1 = some true := by
  have hstart : (i2cStart (dev.target line d) s).1 = true := calm_start hcalm s
  have hbegun := (after_start s rfl).1 hstart
  have htaken : dev.takeAll [dev.addr, toByte smbCmd] ⟨.begun, (dev.after line d s.trace).mem⟩ =
      ⟨.writing (toByte smbCmd) f [], (dev.after line d s.trace).mem⟩ := by
    simp only [takeAll_cons, takeAll_nil, take, if_true, hcmd]
  have hsend : (sendAll (dev.target line d) [dev.addr, toByte smbCmd]
      (i2cStart (dev.target line d) s).2).1 = true := by
    refine calm_sendAll hcalm _ ?_
    rw [hbegun, htaken]
    exact Phase.noConfusion
  have hback : (i2cByteout (dev.target line d) (dev.addr + 1) (i2cRestart
      (sendAll (dev.target line d) [dev.addr, toByte smbCmd]
        (i2cStart (dev.target line d) s).2).2)).1 = true := by
    refine calm_byteout hcalm _ ?_
    rcases after_sendAll [dev.addr, toByte smbCmd] _ hbegun with ⟨-, -, hend⟩ | ⟨hno, -⟩
    · rw [i2cRestart, I2c.log_trace, after_snoc, hend, htaken]
      simp only [see, take, if_true]
      exact Phase.noConfusion
    · rw [hsend] at hno
      exact Bool.noConfusion hno
  simp only [addressRead, haddr, toByte_succ, hstart, if_true, hsend, hback]

/-- Another address is not ACKed. -/
theorem addressRead_elsewhere (haddr : toByte smbAddr ≠ dev.addr) (s : I2c)
    (hσ : dev.after line d s.trace = σ) {r : Option Bool} {b : I2c}
    (hr : addressRead (dev.target line d) smbAddr smbCmd s = (r, b)) :
    r ≠ some true ∧ dev.after line d b.trace = drop σ := by
  obtain ⟨hyes, hno⟩ := after_start s hσ
  rw [addressRead] at hr
  by_cases hstart : (i2cStart (dev.target line d) s).1 = true
  swap
  · rw [if_neg hstart] at hr
    obtain ⟨rfl, rfl⟩ := Prod.mk.inj hr
    exact ⟨by decide, hno (Bool.eq_false_iff.mpr hstart)⟩
  rw [if_pos hstart] at hr
  have htake : dev.take (toByte smbAddr) ⟨.begun, σ.mem⟩ = drop σ := by
    simp only [take, if_neg haddr]
    rfl
  rcases after_byteout (toByte smbAddr) _ (hyes hstart) with ⟨-, hphase, -⟩ | ⟨hnack, hbroken⟩
  · rw [htake] at hphase
    exact absurd rfl hphase
  · have hsend : sendAll (dev.target line d) [toByte smbAddr, toByte smbCmd]
        (i2cStart (dev.target line d) s).2 = (false, (i2cByteout (dev.target line d)
          (toByte smbAddr) (i2cStart (dev.target line d) s).2).2) := by
      rw [sendAll, if_neg (by rw [hnack]; exact Bool.false_ne_true)]
    rw [hsend, if_neg Bool.false_ne_true] at hr
    obtain ⟨rfl, rfl⟩ := Prod.mk.inj hr
    refine ⟨by decide, ?_⟩
    obtain ⟨pre, hpre, hend⟩ := hbroken
    rw [List.prefix_cons_iff] at hpre
    obtain rfl | ⟨p, rfl, hp⟩ := hpre
    · obtain hend | hend := hend <;> rw [hend] <;> rfl
    · rw [List.prefix_nil] at hp
      rw [hp, takeAll_cons, takeAll_nil, htake] at hend
      obtain hend | hend := hend <;> rw [hend] <;> rfl

/-! ## Bytes -/

theorem responsive_target (dev : BusDevice D) (line : BusLine) (d : D) :
    Responsive (dev.target line d) :=
  ⟨line.recvTimely, line.stopTimely⟩

/-- These bytes are to come: the device is to send all of them, or one has arrived. -/
def Reads (dev : BusDevice D) (line : BusLine) (d m : D) (first : Bool) (bs : List Byte)
    (s : I2c) : Prop :=
  if first then dev.after line d s.trace = ⟨.sending bs, m⟩
  else bs.head? = some s.i2dat ∧ dev.after line d s.trace = ⟨.sending bs.tail, m⟩

section

variable {b : Byte} {bs : List Byte} {first : Bool} {s : I2c}

/-- The wait for a byte. -/
theorem after_awaitByte (h : dev.after line d s.trace = ⟨.sending (b :: bs), m⟩) :
    ∃ s', s.awaitByte (dev.target line d) = (true, s') ∧
      dev.Reads line d m false (b :: bs) s' := by
  obtain ⟨s', hrun, hdat, -, htrace⟩ := awaitByte_of_responsive (dev.responsive_target line d) s
  have hbyte : ((dev.target line d).recv s.trace).2 = b := by
    simp only [target, h]
    rfl
  rw [hbyte] at hdat htrace
  refine ⟨s', hrun, by rw [hdat]; rfl, ?_⟩
  rw [htrace, after_snoc, h]
  rfl

theorem Reads.setLastrd (h : dev.Reads line d m first bs s) :
    dev.Reads line d m first bs s.setLastrd := by
  have htrace : dev.after line d s.setLastrd.trace = dev.after line d s.trace := by
    rw [show s.setLastrd.trace = s.trace ++ [.lastrd] from rfl, after_snoc]
    rfl
  cases first with
  | true => exact htrace.trans h
  | false => exact ⟨h.1, htrace.trans h.2⟩

theorem after_fetch (s : I2c) : dev.after line d s.fetch.trace = dev.after line d s.trace := by
  rw [show s.fetch.trace = s.trace ++ [.fetch s.i2dat] from rfl, after_snoc]
  rfl

/-- What a call leaves: the bytes behind the one it hands over, or the end. -/
def Left (dev : BusDevice D) (line : BusLine) (d m : D) (last : Bool) (bs : List Byte)
    (s : I2c) : Prop :=
  if last then dev.after line d s.trace = ⟨.idle, m⟩ else dev.Reads line d m false bs s

/-- The second half of a call. -/
theorem after_byteinRest (beforeLast last : Bool) (h : dev.Reads line d m false (b :: bs) s)
    (hmore : last = false → bs ≠ []) :
    ∃ s', i2cByteinRest (dev.target line d) beforeLast last s = (b, s') ∧
      dev.Left line d m last bs s' := by
  obtain ⟨hdat, hafter⟩ := h
  obtain rfl : b = s.i2dat := Option.some.inj hdat
  rw [i2cByteinRest]
  cases last with
  | true =>
      have hstop : dev.after line d (s.log .stop).trace = ⟨.idle, m⟩ := by
        rw [I2c.log_trace, after_snoc, hafter]
        rfl
      obtain ⟨s₁, hs₁, hdat₁, hafter₁⟩ : ∃ s₁, (if beforeLast then (s.log .stop).setLastrd
          else s.log .stop) = s₁ ∧ s₁.i2dat = s.i2dat ∧ dev.after line d s₁.trace = ⟨.idle, m⟩ := by
        refine ⟨_, rfl, ?_⟩
        split
        · refine ⟨rfl, ?_⟩
          rw [show (s.log .stop).setLastrd.trace = (s.log .stop).trace ++ [.lastrd] from rfl,
            after_snoc, hstop]
          rfl
        · exact ⟨rfl, hstop⟩
      simp only [if_true, hs₁, I2c.await,
        (dev.responsive_target line d).stopShows s₁.fetch.trace, hdat₁]
      exact ⟨_, rfl, (after_fetch s₁).trans hafter₁⟩
  | false =>
      have hreads : dev.Reads line d m false (s.i2dat :: bs) s := ⟨rfl, hafter⟩
      obtain ⟨s₁, hs₁, hdat₁, hafter₁⟩ : ∃ s₁, (if beforeLast then s.setLastrd else s) = s₁ ∧
          s₁.i2dat = s.i2dat ∧ dev.after line d s₁.trace = ⟨.sending bs, m⟩ := by
        refine ⟨_, rfl, ?_⟩
        split
        · exact ⟨rfl, hreads.setLastrd.2⟩
        · exact ⟨rfl, hafter⟩
      obtain ⟨c, cs, hbs⟩ := List.exists_cons_of_ne_nil (hmore rfl)
      rw [hbs] at hafter₁
      obtain ⟨s₂, hwait, hnext⟩ := after_awaitByte ((after_fetch s₁).trans hafter₁)
      simp only [Bool.false_eq_true, if_false, hs₁, hwait, hdat₁, hbs]
      exact ⟨s₂, rfl, hnext⟩

/-- A call hands over the next byte. -/
theorem after_bytein (single beforeLast last : Bool) (h : dev.Reads line d m first (b :: bs) s)
    (hmore : last = false → bs ≠ []) :
    ∃ s', i2cBytein (dev.target line d) first single beforeLast last s = (b, s') ∧
      dev.Left line d m last bs s' := by
  obtain ⟨s₁, hs₁, hreads⟩ : ∃ s₁, (if single then s.setLastrd else s) = s₁ ∧
      dev.Reads line d m first (b :: bs) s₁ := by
    refine ⟨_, rfl, ?_⟩
    split
    · exact h.setLastrd
    · exact h
  rw [i2cBytein]
  simp only [hs₁]
  cases first with
  | true =>
      obtain ⟨s₂, hwait, hnext⟩ := after_awaitByte ((after_fetch s₁).trans hreads)
      simp only [if_true, hwait]
      exact after_byteinRest beforeLast last hnext hmore
  | false => exact after_byteinRest beforeLast last hreads hmore

/-- A whole read hands over the bytes in order, and ends the transaction. -/
theorem after_transfer {n : Nat} (hpos : 0 < n) (hn : n ≤ bs.length)
    (h : dev.after line d s.trace = ⟨.sending bs, m⟩) :
    ∃ s', transfer (dev.target line d) true true n n s = (bs.take n, s') ∧
      dev.after line d s'.trace = ⟨.idle, m⟩ := by
  have hrow : ∀ k, k ≤ n → ∃ s', transfer (dev.target line d) true true n k s =
      (bs.take k, s') ∧ if k = n then dev.after line d s'.trace = ⟨.idle, m⟩
        else dev.Reads line d m (k == 0) (bs.drop k) s' := by
    intro k hk
    induction k with
    | zero => exact ⟨s, rfl, by rw [if_neg (Nat.ne_of_lt hpos)]; exact h⟩
    | succ k ih =>
        obtain ⟨s', hrun, hreads⟩ := ih (by omega)
        rw [if_neg (by omega), List.drop_eq_getElem_cons (by omega)] at hreads
        obtain ⟨s'', hcall, hleft⟩ := after_bytein (true && k == 0 && n == 1) (true && k + 2 == n)
          (true && k + 1 == n) hreads fun hlast => by
            simp only [Bool.true_and, beq_eq_false_iff_ne] at hlast
            exact List.ne_nil_of_length_pos (by rw [List.length_drop]; omega)
        refine ⟨s'', ?_, ?_⟩
        · rw [transfer_succ, hrun]
          simp only [byteinAt, Bool.true_and] at hcall ⊢
          rw [hcall, List.take_add_one, List.getElem?_eq_getElem (by omega)]
          rfl
        · rw [Left] at hleft
          by_cases hlast : k + 1 = n
          · simpa [hlast] using hleft
          · simpa [hlast] using hleft
  obtain ⟨s', hrun, hend⟩ := hrow n (Nat.le_refl n)
  exact ⟨s', hrun, by simpa using hend⟩

end

/-! ## Requests -/

/-- The answer of a block read has its count in front. -/
theorem answers_of_format {kind : ReadKind} (hcmd : dev.format cmd = some kind.format) (d : D) :
    kind.format.Answers (dev.read cmd d).1 := dev.answers d hcmd

/-- The calls of a request are as many as the bytes of the answer, and one more for the packet
error code. -/
theorem calls_reply {kind : ReadKind} (hcmd : dev.format cmd = some kind.format) (m : D)
    {count : Byte} (hcount : kind = .block → count = BitVec.ofNat 8 (dev.read cmd m).1.length)
    (on : Bool) :
    0 < kind.calls on count ∧ kind.calls on count ≤ (dev.reply cmd kind.format m).length ∧
      (on = true → kind.calls on count = (dev.reply cmd kind.format m).length) ∧
      ((dev.reply cmd kind.format m).take (kind.calls on count)).take (kind.replies count) =
        (kind.format.encode (dev.read cmd m).1).take 64 := by
  have hans := answers_of_format hcmd m
  generalize hdata : (dev.read cmd m).1 = data at hans hcount
  cases kind with
  | byte =>
      obtain ⟨x, rfl⟩ := List.length_eq_one_iff.mp hans
      cases on <;> simp [ReadKind.calls, ReadKind.format, ReadKind.replies, reply, hdata,
        Format.encode]
  | word =>
      obtain ⟨x, y, rfl⟩ := List.length_eq_two.mp hans
      cases on <;> simp [ReadKind.calls, ReadKind.format, ReadKind.replies, reply, hdata,
        Format.encode]
  | block =>
      obtain ⟨hlow, hhigh⟩ : 1 ≤ data.length ∧ data.length ≤ 253 := hans
      have hbyte : count.toNat = data.length := by
        rw [hcount rfl, BitVec.toNat_ofNat]
        omega
      have hlen : (dev.reply cmd ReadKind.block.format m).length = data.length + 2 := by
        simp [reply, ReadKind.format, hdata, Format.encode]
      simp only [ReadKind.calls, hbyte, hlen]
      refine ⟨Nat.succ_pos _, Nat.le_refl _, fun _ => trivial, ?_⟩
      rw [← hlen, List.take_length, reply, hdata, ReadKind.replies, hbyte,
        List.take_append_of_le_length (by simp [ReadKind.format, Format.encode])]
      simp only [ReadKind.format, Format.encode]
      rw [Nat.min_comm, ← List.take_take, List.take_of_length_le (i := data.length + 1) (by simp)]

/-- The first byte of a block is its count. -/
theorem countCall_device {b : I2c} {m' : D}
    (h : dev.after line d b.trace = ⟨.sending (dev.reply cmd .block m), m'⟩) :
    (countCall (dev.target line d) b).1 = BitVec.ofNat 8 (dev.read cmd m).1.length := by
  have hreads : dev.Reads line d m' true (BitVec.ofNat 8 (dev.read cmd m).1.length ::
      ((dev.read cmd m).1 ++ [dev.answerPec cmd (Format.block.encode (dev.read cmd m).1)])) b := h
  obtain ⟨s₁, hcall, -⟩ := after_bytein false false false hreads fun _ => by simp
  rw [countCall, hcall]

/-- The packet error code of the device is right. -/
theorem not_pecWrong_reply (haddr : toByte smbAddr = dev.addr) (f : Format) (m : D) :
    ¬ PecWrong smbAddr smbCmd (dev.reply (toByte smbCmd) f m) := by
  rw [PecWrong, reply, List.getLastD_concat, List.dropLast_concat, ne_eq, not_not, answerPec,
    readAddress, toByte_succ, haddr]
  rfl

/-- How a read request to the device ends: the device did not take part to the end, or the reply
is the beginning of its answer. -/
theorem readEnd_cases {kind : ReadKind} {s s' : Fx2} {ok : Bool} (haddr : toByte smbAddr = dev.addr)
    (hcmd : dev.format (toByte smbCmd) = some kind.format)
    (hσ : dev.after line d s.trace = σ)
    (hend : ReadEnd (dev.target line d) kind smbAddr smbCmd s ok s') :
    s'.pecFailed = s.pecFailed ∧
    ((ok = false ∧
        (addressRead (dev.target line d) smbAddr smbCmd s.toI2c).1 ≠ some true ∧
        Called dev.object (.read (toByte smbCmd)) σ.mem none (dev.after line d s'.trace).mem ∧
        (dev.after line d s'.trace).phase = .idle) ∨
      (ok = true ∧
        (addressRead (dev.target line d) smbAddr smbCmd s.toI2c).1 = some true ∧
        dev.after line d s'.trace = ⟨.idle, (dev.read (toByte smbCmd) σ.mem).2⟩ ∧
        s'.reply 255 =
          (kind.format.encode (dev.read (toByte smbCmd) σ.mem).1).take 64)) := by
  have hf : kind.format ≠ .send := by cases kind <;> exact Format.noConfusion
  have haddressed {r : Option Bool} {b : I2c} :=
    after_addressRead (r := r) (b := b) haddr hcmd hf s.toI2c hσ
  -- Behind the address phase the device is about to send.
  have hsent : ∀ {b}, addressRead (dev.target line d) smbAddr smbCmd s.toI2c = (some true, b) →
      dev.after line d b.trace = ⟨.sending (dev.reply (toByte smbCmd) kind.format σ.mem),
        (dev.read (toByte smbCmd) σ.mem).2⟩ := fun h => (haddressed h).2.2 rfl
  have hcount : ∀ {b}, addressRead (dev.target line d) smbAddr smbCmd s.toI2c = (some true, b) →
      kind = .block → (countCall (dev.target line d) b).1 =
        BitVec.ofNat 8 (dev.read (toByte smbCmd) σ.mem).1.length := by
    rintro b h rfl
    exact countCall_device (hsent h)
  have hlow : kind = .block → 1 ≤ (dev.read (toByte smbCmd) σ.mem).1.length ∧
      (dev.read (toByte smbCmd) σ.mem).1.length ≤ 253 := by
    rintro rfl
    exact answers_of_format hcmd σ.mem
  cases hend with
  | @noStart b _ haddr' htrace hfailed =>
      have hdrop := (haddressed haddr').1 rfl
      refine ⟨hfailed, .inl ⟨rfl, by rw [haddr']; exact (Option.some_ne_none _).symm, ?_⟩⟩
      have hend : dev.after line d s'.trace = drop σ := by
        rw [htrace]
        split
        · exact hdrop
        · rw [after_stop, hdrop]
          rfl
      rw [hend]
      exact ⟨.missed, rfl⟩
  | @nack b _ haddr' htrace hfailed =>
      obtain ⟨hcalled, hphase⟩ := (haddressed haddr').2.1 rfl
      refine ⟨hfailed, .inl ⟨rfl, by rw [haddr']; exact show some false ≠ some true by decide, ?_⟩⟩
      have hend : dev.after line d s'.trace = dev.after line d b.trace := by
        rw [htrace, after_stop]
        generalize dev.after line d b.trace = τ at hphase
        obtain ⟨phase, mem⟩ := τ
        rw [show phase = .idle from hphase]
        rfl
      rw [hend]
      exact ⟨hcalled, hphase⟩
  | @refused b b' c _ haddr' hkind hcall hbad htrace hfailed =>
      have hc := hcount haddr' hkind
      have hlen := hlow hkind
      rw [hcall] at hc
      have hval : c.toNat = (dev.read (toByte smbCmd) σ.mem).1.length := by
        rw [show c = _ from hc, BitVec.toNat_ofNat]
        omega
      exfalso
      obtain rfl | rfl := hbad
      · have h0 : (0 : Byte).toNat = 0 := rfl
        omega
      · have h255 : (0xFF : Byte).toNat = 255 := rfl
        omega
  | @wrapped b b' _ _ haddr' hkind hcall _ _ _ _ =>
      have hc := hcount haddr' hkind
      have hlen := hlow hkind
      rw [hcall] at hc
      have hval : (0xFE : Byte).toNat = (dev.read (toByte smbCmd) σ.mem).1.length := by
        rw [show (0xFE : Byte) = _ from hc, BitVec.toNat_ofNat]
        omega
      have h254 : (0xFE : Byte).toNat = 254 := rfl
      omega
  | @mismatch b b' vs _ haddr' hgood hrow hon hwrong _ _ =>
      obtain ⟨hpos, hle, hall, -⟩ := calls_reply hcmd σ.mem (hcount haddr') s.pecEnabled
      obtain ⟨s₁, htransfer, -⟩ := after_transfer hpos hle (hsent haddr')
      rw [hrow] at htransfer
      have hvs := (Prod.mk.inj htransfer).1
      rw [hall hon, List.take_length] at hvs
      rw [hvs] at hwrong
      exact absurd hwrong (not_pecWrong_reply haddr _ _)
  | @done b b' vs _ haddr' hgood hrow hright htrace hfailed hbcl hreply =>
      obtain ⟨hpos, hle, -, htake⟩ := calls_reply hcmd σ.mem (hcount haddr') s.pecEnabled
      obtain ⟨s₁, htransfer, hafter⟩ := after_transfer hpos hle (hsent haddr')
      rw [hrow] at htransfer
      obtain ⟨hvs, rfl⟩ := Prod.mk.inj htransfer
      refine ⟨hfailed, .inr ⟨rfl, by rw [haddr'], by rw [htrace, hafter], ?_⟩⟩
      rw [hreply, hvs, htake]

/-- A read request to another address fails, and changes nothing. -/
theorem readEnd_elsewhere {kind : ReadKind} {s s' : Fx2} {ok : Bool}
    (haddr : toByte smbAddr ≠ dev.addr) (hσ : dev.after line d s.trace = σ)
    (hend : ReadEnd (dev.target line d) kind smbAddr smbCmd s ok s') :
    ok = false ∧ dev.after line d s'.trace = drop σ := by
  have haddressed : ∀ {r b}, addressRead (dev.target line d) smbAddr smbCmd s.toI2c = (r, b) →
      r ≠ some true ∧ dev.after line d b.trace = drop σ :=
    addressRead_elsewhere haddr s.toI2c hσ
  cases hend with
  | @noStart b _ haddr' htrace _ =>
      refine ⟨rfl, ?_⟩
      rw [htrace]
      split
      · exact (haddressed haddr').2
      · rw [after_stop, (haddressed haddr').2]
        rfl
  | @nack b _ haddr' htrace _ =>
      refine ⟨rfl, ?_⟩
      rw [htrace, after_stop, (haddressed haddr').2]
      rfl
  | refused haddr' _ _ _ _ _ => exact absurd rfl (haddressed haddr').1
  | wrapped haddr' _ _ _ _ _ _ => exact absurd rfl (haddressed haddr').1
  | mismatch haddr' _ _ _ _ _ _ => exact absurd rfl (haddressed haddr').1
  | done haddr' _ _ _ _ _ _ _ => exact absurd rfl (haddressed haddr').1

/-! ## Long blocks -/

/-- The bytes of an answer as a stream. -/
def replyStream (dev : BusDevice D) (cmd : Byte) (f : Format) (m : D) : Nat → Byte :=
  fun i => (dev.reply cmd f m).getD i 0xFF

/-- The device after the events that address it for a read. -/
theorem after_addressEvents {cmd : Byte} {f : Format} (hcmd : dev.format cmd = some f)
    (tr : List Event) (k : Nat) (hσ : dev.after line d tr = σ) :
    dev.after line d (tr ++ (List.replicate k (.start true) ++
        addressEvents dev.addr cmd (dev.addr + 1))) =
      ⟨.sending (dev.reply cmd f σ.mem), (dev.read cmd σ.mem).2⟩ := by
  have hstarts : ∀ k, (dev.after line d (tr ++ List.replicate k (.start true))).mem = σ.mem := by
    intro k
    induction k with
    | zero => rw [List.replicate_zero, List.append_nil, hσ]
    | succ k ih =>
        rw [List.replicate_succ', ← List.append_assoc, after_snoc]
        exact ih
  have hmem := hstarts k
  rw [← List.append_assoc]
  generalize tr ++ List.replicate k (.start true) = tr' at hmem ⊢
  have hevents : ∀ e₁ e₂ e₃ e₄ e₅, dev.after line d (tr' ++ [e₁, e₂, e₃, e₄, e₅]) =
      dev.see line (tr' ++ [e₁, e₂, e₃, e₄]) e₅ (dev.see line (tr' ++ [e₁, e₂, e₃]) e₄
        (dev.see line (tr' ++ [e₁, e₂]) e₃ (dev.see line (tr' ++ [e₁]) e₂
          (dev.see line tr' e₁ (dev.after line d tr'))))) := by
    intro e₁ e₂ e₃ e₄ e₅
    simp only [← after_snoc, List.append_assoc, List.cons_append, List.nil_append]
  rw [addressEvents, hevents]
  simp only [see, take, if_true, if_false, Bool.false_eq_true, hcmd, hmem]

/-- A turn of a block read takes one byte of the answer. -/
theorem after_turns {f : Nat → Byte} {beforeLast last : Nat → Bool} {bs : List Byte}
    {tr : List Event} {n k : Nat} (hlast : ∀ i < n, last i = false) (hk : k ≤ n)
    (h : dev.after line d tr = ⟨.sending bs, m⟩) :
    dev.after line d (tr ++ turns f beforeLast last k) = ⟨.sending (bs.drop k), m⟩ ∧
      dev.after line d (tr ++ turns f beforeLast last k ++ askEvents f (beforeLast k) k) =
        ⟨.sending (bs.drop k), m⟩ := by
  have hask : ∀ tr' i bl, dev.after line d (tr' ++ askEvents f bl i) = dev.after line d tr' := by
    intro tr' i bl
    rw [askEvents]
    split
    · rw [show ([.lastrd, .fetch (f i)] : List Event) = [.lastrd] ++ [.fetch (f i)] from rfl,
        ← List.append_assoc, after_snoc, after_snoc]
      rfl
    · rw [after_snoc]
      rfl
  rw [hask, and_self]
  induction k with
  | zero => rw [turns, List.append_nil, h, List.drop_zero]
  | succ k ih =>
      rw [turns, turnEvents, hlast k (by omega), if_neg Bool.false_ne_true, ← List.append_assoc,
        ← List.append_assoc, after_snoc, hask, ih (by omega)]
      simp only [see, List.tail_drop]

/-- A block read gets the whole answer: its beginning is the reply, and the rest is kept. -/
theorem readBlock_device {fuel : Nat} (hfuel : 256 ≤ fuel) (haddr : toByte smbAddr = dev.addr)
    (hcmd : dev.format (toByte smbCmd) = some .block) {s : Fx2} (hidle : s.Idle)
    (hσ : dev.after line d s.trace = σ) :
    ∃ ok s', Handler.readBlock (dev.target line d) fuel smbAddr smbCmd s = .ok ok s' ∧
      (ok = true → BlockReady (dev.replyStream (toByte smbCmd) .block σ.mem)
        (dev.read (toByte smbCmd) σ.mem).1.length s s') := by
  obtain ⟨hlow, hhigh⟩ : 1 ≤ (dev.read (toByte smbCmd) σ.mem).1.length ∧
    (dev.read (toByte smbCmd) σ.mem).1.length ≤ 253 := dev.answers σ.mem hcmd
  refine exists_run_of_wp (wp_readBlock_fresh hidle (fun _ _ h => Bool.noConfusion h) ?_)
  intro k b hb _ _
  have hsending : dev.after line d b.trace = ⟨.sending (dev.reply (toByte smbCmd) .block σ.mem),
      (dev.read (toByte smbCmd) σ.mem).2⟩ := by
    rw [show b.trace = _ from hb, toByte_succ, haddr]
    exact after_addressEvents hcmd s.trace k hσ
  have hrecv : ∀ {tr bs}, dev.after line d tr = ⟨.sending bs, (dev.read (toByte smbCmd) σ.mem).2⟩ →
      ((dev.target line d).recv tr).2 = bs.headD 0xFF := by
    intro tr bs h
    simp only [target, nextByte, h]
  generalize hdata : (dev.read (toByte smbCmd) σ.mem).1 = data at hlow hhigh
  have hstream : dev.replyStream (toByte smbCmd) .block σ.mem 0 = BitVec.ofNat 8 data.length := by
    rw [replyStream, reply, hdata]
    rfl
  refine wp_readBlockData_addressed (s := s) (dev.responsive_target line d) hfuel hb rfl ?_
    (by rw [hstream, BitVec.toNat_ofNat]; omega) hlow (by omega) ?_
    (fun _ _ _ _ _ _ h => Bool.noConfusion h) (fun _ s' _ hready _ => hready)
  · rw [hrecv (by rw [after_snoc]; exact hsending), replyStream, List.headD_eq_head?_getD,
      List.head?_eq_getElem?]
    rfl
  · intro k hk
    have hlast : ∀ i < data.length + 1, blockLast data.length i = false := by
      intro i hi
      simp only [blockLast, beq_eq_false_iff_ne]
      omega
    have hcount : dev.after line d (b.trace ++
        countEvents { s.expire with toI2c := b } (dev.replyStream (toByte smbCmd) .block σ.mem)) =
        ⟨.sending ((dev.reply (toByte smbCmd) .block σ.mem).drop 1),
          (dev.read (toByte smbCmd) σ.mem).2⟩ := by
      rw [countEvents, show ([.fetch b.i2dat, .recv _ b.lastrdBit] : List Event) =
        [.fetch b.i2dat] ++ [.recv _ b.lastrdBit] from rfl, ← List.append_assoc, after_snoc,
        after_snoc, hsending]
      simp only [see, List.drop_one]
    rw [hrecv (after_turns hlast (by omega) hcount).2, List.drop_drop, replyStream,
      List.headD_eq_head?_getD, List.head?_drop, List.getD_eq_getElem?_getD, Nat.add_comm]

end BusDevice

end Smbusb
