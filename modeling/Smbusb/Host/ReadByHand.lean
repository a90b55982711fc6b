import Smbusb.Host.DeviceRuns
import Smbusb.Host.TransactionPec

/-!
# Reading by hand

A program can read a command of a device with the call for its format, or by hand: it writes the
address and the command, writes the address for reading behind a repeated START, and reads as many
bytes as it likes.

*The device.*  The two writes leave the device about to send its reply (`address_by_hand`), and the
bytes that are read are the beginning of it, for any length (`read_device`).

*Calls.*  `read_by_hand` says that on a calm line the two ways give the same bytes and leave the
same device behind them.  With the PEC on, the two packet error codes that `SMBGetArbPEC` fetches
agree.
-/

namespace Smbusb

open Logic Fx2lp

/-- A read by hand: the command, the address for reading, and the bytes. -/
def readByHand (d : Device Link) (status : Int) (addr command : Byte) (len : Nat)
    (data : Mem Byte) (l : Link) : Int × Mem Byte × Link :=
  transaction d status ⟨0, [addr, command], List.cons_ne_nil _ _⟩
    [⟨1, [addr + 1], List.cons_ne_nil _ _⟩] len data l

section

variable {D : Type} {dev : BusDevice D} {line : BusLine} {d m : D} {way : Nat → Delivery}
  {s : Fx2} {l : Link} {bs : List Byte}

namespace BusDevice

/-! ## The device -/

/-- Bytes for which the device has a use are ACKed. -/
theorem calm_bytes (hcalm : line.Calm) (on : Bool) (bs : List Byte) (pec : Byte)
    (tr : List Event) (h : (dev.takeAll bs (dev.after line d tr)).phase ≠ .idle) :
    Tx.bytes (dev.target line d) on bs pec tr =
        ⟨true, pecOver on bs pec, tr ++ acked bs⟩ ∧
      dev.after line d (tr ++ acked bs) = dev.takeAll bs (dev.after line d tr) := by
  induction bs generalizing pec tr with
  | nil =>
      rw [acked, List.map_nil, List.append_nil, takeAll_nil]
      refine ⟨?_, rfl⟩
      cases on <;> rfl
  | cons b bs ih =>
      rw [takeAll_cons] at h ⊢
      have htake : (dev.take b (dev.after line d tr)).phase ≠ .idle := by
        intro hidle
        rw [takeAll_of_idle hidle] at h
        exact h rfl
      have hout : (dev.target line d).out tr b = (line.delay tr, .ack) := by
        simp [target, hcalm.garbles, hcalm.refuses, htake]
      have hafter : dev.after line d (tr ++ [.sent b (some .ack)]) =
          dev.take b (dev.after line d tr) := by
        rw [after_snoc]
        rfl
      have hbyte : byteoutTrace (dev.target line d) b tr = (true, tr ++ [.sent b (some .ack)]) := by
        simp [byteoutTrace, hout, hcalm.delay tr]
      rw [← hafter] at h ⊢
      obtain ⟨hbytes, hend⟩ := ih (if on then pecCrc pec b else pec)
        (tr ++ [.sent b (some .ack)]) h
      rw [show tr ++ acked (b :: bs) = tr ++ [.sent b (some .ack)] ++ acked bs by simp [acked]]
      refine ⟨?_, hend⟩
      rw [Tx.bytes, hbyte]
      simp only [if_true, hbytes]
      cases on <;> rfl

/-- The bytes a device sends for a read, as far as they are asked for. -/
theorem sends_reply {f : Nat → Byte} {len : Nat} (hs : Sends (dev.target line d) s f len)
    (hσ : dev.after line d s.trace = ⟨.sending bs, m⟩) :
    (∀ k < readTurns s.pecEnabled true len, f k = bs.getD k 0xFF) ∧
      (0 < len → dev.after line d (readTrace s f len (readTurns s.pecEnabled true len)) =
        ⟨.idle, m⟩) := by
  have hrecv : ∀ {tr cs}, dev.after line d tr = ⟨.sending cs, m⟩ →
      ((dev.target line d).recv tr).2 = cs.headD 0xFF := by
    intro tr cs h
    simp only [target, nextByte, h]
  obtain ⟨tr, htr⟩ : ∃ tr, tr = s.trace ++ [.fetch s.i2dat, .recv (f 0) s.lastrdBit] := ⟨_, rfl⟩
  have hfirst : dev.after line d tr = ⟨.sending bs.tail, m⟩ := by
    rw [htr, show ([.fetch s.i2dat, .recv (f 0) s.lastrdBit] : List Event) =
      [.fetch s.i2dat] ++ [.recv (f 0) s.lastrdBit] from rfl, ← List.append_assoc, after_snoc,
      after_snoc, hσ]
    rfl
  obtain ⟨n, hn⟩ : ∃ n, n = readTurns s.pecEnabled true len := ⟨_, rfl⟩
  have hlast : ∀ i < n - 1, readLast s.pecEnabled len i = false := by
    intro i hi
    rw [readLast, ← hn, beq_eq_false_iff_ne]
    omega
  rw [← hn]
  refine ⟨fun k hk => ?_, fun hlen => ?_⟩
  · cases k with
    | zero =>
        rw [← hs.first, hrecv (by rw [after_snoc, hσ]; rfl)]
        cases bs <;> rfl
    | succ k =>
        have hfollows := hs.others (k + 1) k (Nat.lt_succ_self k)
        rw [← htr] at hfollows
        rw [← hfollows, hrecv (after_turns hlast (by omega) hfirst).2, List.headD_eq_head?_getD,
          List.head?_drop, List.getD_eq_getElem?_getD, List.getElem?_tail]
  · obtain ⟨k, rfl⟩ : ∃ k, n = k + 1 :=
      ⟨n - 1, by have := hn; simp only [readTurns] at this; omega⟩
    have hstop : readLast s.pecEnabled len k = true := by
      rw [readLast, ← hn, beq_self_eq_true]
    rw [readTrace, ← htr, turns, turnEvents, hstop, if_pos rfl,
      show ([.stop, .fetch (f k)] : List Event) = [.stop] ++ [.fetch (f k)] from rfl,
      ← List.append_assoc, ← List.append_assoc, after_snoc, after_snoc,
      (after_turns hlast (by omega) hfirst).1]
    rfl

/-- A read of one byte without a PEC, which is one call of `i2c_bytein`. -/
theorem read_single {b : Byte} (hdel : (way l.sent).fate = .delivered)
    (hoff : l.fx2.pecEnabled = false)
    (hσ : dev.after line d l.fx2.trace = ⟨.sending (b :: bs), m⟩) {lastRead : Byte}
    (hlast : lastRead ≠ 0) (status : Int) (data : Mem Byte) :
    ∃ l' : Link, Fx2lp.read (usb (dev.target line d) way) status 1 data lastRead l =
        (1, data.write 0 [b], l') ∧ dev.after line d l'.fx2.trace = ⟨.idle, m⟩ := by
  obtain ⟨s₁, hs₁⟩ : ∃ s₁, s₁ = l.fx2.tick (way l.sent).gap := ⟨_, rfl⟩
  have hturns : readTurns s₁.pecEnabled true 1 = 1 := by
    rw [hs₁, show (l.fx2.tick (way l.sent).gap).pecEnabled = l.fx2.pecEnabled from rfl, hoff]
    rfl
  have hreads : dev.Reads line d m true (b :: bs) s₁.toI2c := by
    rw [hs₁]
    exact hσ
  obtain ⟨b', hcall, hleft⟩ := after_bytein true false true hreads Bool.noConfusion
  have hrule := Smbusb.read_run_of_turns (T := dev.target line d) (s := s₁) (n := 1) true true
    loopFuel (fun k i => i = if k = 0 then s₁.toI2c else b') (fun _ => b) 0
  rw [hturns] at hrule
  obtain ⟨c, hrun, rfl⟩ := hrule (by decide) (by omega) (by
    rintro k hk i rfl
    obtain rfl : k = 0 := by omega
    exact ⟨b', hcall, rfl⟩) rfl
  obtain ⟨s', hs'⟩ : ∃ s' : Fx2, s' =
      { s₁.readSoFar (fun _ => b) 0 1 1 c with ep0bcl := 1 } := ⟨_, rfl⟩
  have hserve : serve (dev.target line d) smbRead ⟨1, (readFlags true true).setWidth 16⟩ s₁ =
      (true, s') := by
    rw [hs']
    exact serve_of_run smbRead hrun
  have hreply : s'.reply 1 = [b] := by
    rw [hs']
    exact Mem.read_write s₁.ep0buf 0 [b]
  have hinp : (usb (dev.target line d) way).inp smbRead
      ⟨BitVec.ofNat 16 1, (readFlags true true).setWidth 16⟩ 1 l =
        ((1, [b]), ⟨s', l.sent + 1⟩) := by
    rw [hs₁] at hserve
    change (usb (dev.target line d) way).inp smbRead ⟨1, _⟩ 1 l = _
    simp only [usb, hdel, hserve, hreply, if_true]
    rfl
  have hflags : readCmdFirstRead ||| readCmdLastRead = readFlags true true := rfl
  refine ⟨⟨s', l.sent + 1⟩, ?_, ?_⟩
  · simp only [Fx2lp.read, Nat.reduceDiv, Nat.zero_mul, Nat.sub_zero, readWhole, Nat.lt_one_iff,
      if_true, hlast, ne_eq, not_false_eq_true, hflags, hinp]
  · rw [hs']
    exact hleft

/-- An arbitrary read from a device about to send its reply. -/
theorem read_device {len : Nat} (hdel : ∀ k, (way k).fate = .delivered) (hlen : 1 ≤ len)
    (hσ : dev.after line d l.fx2.trace = ⟨.sending bs, m⟩) (hne : bs ≠ []) {lastRead : Byte}
    (hlast : lastRead ≠ 0) (status : Int) (data : Mem Byte) :
    ∃ (l' : Link) (status' : Int),
      Fx2lp.read (usb (dev.target line d) way) status len data lastRead l =
        (status', data.write 0 (Mem.read (fun i => bs.getD i 0xFF) 0 len), l') ∧
      dev.after line d l'.fx2.trace = ⟨.idle, m⟩ ∧
      (l.fx2.pecEnabled = true →
        l'.fx2.mrqPec = (Mem.read (fun i => bs.getD i 0xFF) 0 len).foldl pecCrc l.fx2.mrqPec ∧
        l'.fx2.rcvPec = bs.getD len 0xFF) := by
  by_cases hmany : l.fx2.pecEnabled = true ∨ len ≠ 1
  · obtain ⟨f, hs⟩ := exists_sends (dev.target line d) l.fx2 len
    obtain ⟨l', status', hended, hread⟩ := read_usb (dev.responsive_target line d) hs hdel hlen
      hmany hlast status data
    obtain ⟨hbytes, hend⟩ := sends_reply hs hσ
    have hturns : len ≤ readTurns l.fx2.pecEnabled true len := Nat.le_add_right _ _
    have hsame : Mem.read f 0 len = Mem.read (fun i => bs.getD i 0xFF) 0 len := by
      refine Mem.read_congr fun i hi => ?_
      rw [Nat.zero_add]
      exact hbytes i (by omega)
    refine ⟨l', status', by rw [hread, hsame], ?_, fun hon => ⟨?_, ?_⟩⟩
    · rw [hended.trace]
      exact hend hlen
    · rw [hended.pec, pecOver, if_pos hon, hsame]
    · rw [hended.rcvPec hon]
      exact hbytes len (by simp only [readTurns, hon, Bool.and_self, Bool.toNat_true]; omega)
  · obtain ⟨hoff, hone⟩ := not_or.mp hmany
    obtain rfl := not_not.mp hone
    obtain ⟨b, bs, rfl⟩ := List.exists_cons_of_ne_nil hne
    obtain ⟨l', hread, hend⟩ := read_single (hdel l.sent) (Bool.not_eq_true _ ▸ hoff) hσ hlast
      status data
    exact ⟨l', 1, hread, hend, fun hon => absurd hon hoff⟩

/-! ## The address -/

/-- The START and the bytes of a write, for which the device has a use. -/
theorem calm_txWrite (hcalm : line.Calm) (start restart : Bool) (bs : List Byte) (s : Fx2)
    {tr : List Event}
    (htr : tr = s.trace ++ (if start then [.start false] else []) ++
      if restart then [.restart] else [])
    (h : (dev.takeAll bs (dev.after line d tr)).phase ≠ .idle) :
    s.txWrite (dev.target line d) start restart false bs =
        ⟨true, pecOver s.pecEnabled bs (if start && s.pecEnabled then 0 else s.mrqPec),
          tr ++ acked bs⟩ ∧
      dev.after line d (tr ++ acked bs) = dev.takeAll bs (dev.after line d tr) := by
  obtain ⟨hbytes, hafter⟩ := calm_bytes hcalm s.pecEnabled bs
    (if start && s.pecEnabled then 0 else s.mrqPec) tr h
  refine ⟨?_, hafter⟩
  have hstart : startTrace (dev.target line d) i2cMaxRetries s.trace =
      (true, s.trace ++ [.start false]) := by
    have hberr : (dev.target line d).start s.trace = false := hcalm.berr s.trace
    simp [i2cMaxRetries, startTrace, hberr]
  have hconditions : Tx.conditions (dev.target line d) s.pecEnabled start restart s.mrqPec s.trace =
      ⟨true, if start && s.pecEnabled then 0 else s.mrqPec, tr⟩ := by
    rw [htr, Tx.conditions]
    cases start with
    | true => simp [hstart]
    | false => simp
  rw [Fx2.txWrite, Tx.write, hconditions, Tx.pure_andThen, hbytes, Tx.finish_none, Tx.andThen_pure]

/-- The two writes of a read by hand leave the device about to send its reply. -/
theorem address_by_hand (hcalm : line.Calm) (hdel : ∀ k, (way k).fate = .delivered)
    {command : Byte} {f : Format} (hcmd : dev.format command = some f) (status : Int)
    (hσ : dev.after line d s.trace = σ) :
    let first := Fx2lp.write (usb (dev.target line d) way) status 1 0 0 [dev.addr, command] ⟨s, 0⟩
    let second := Fx2lp.write (usb (dev.target line d) way) status 0 1 0 [dev.addr + 1] first.2
    dev.after line d second.2.fx2.trace =
        ⟨.sending (dev.reply command f σ.mem), (dev.read command σ.mem).2⟩ ∧
      second.2.fx2.pecEnabled = s.pecEnabled ∧
      (s.pecEnabled = true →
        second.2.fx2.mrqPec = crc8 [dev.addr, command, dev.addr + 1]) := by
  intro first second
  -- The command is taken.
  have hbegun : dev.after line d (s.trace ++ [.start false] ++ []) = ⟨.begun, σ.mem⟩ := by
    rw [List.append_nil, after_snoc, hσ]
    rfl
  have hcommand : dev.takeAll [dev.addr, command] ⟨.begun, σ.mem⟩ =
      ⟨.writing command f [], σ.mem⟩ := by
    simp [takeAll, take, hcmd]
  obtain ⟨hwrite₁, hafter₁⟩ := calm_txWrite hcalm true false [dev.addr, command] s rfl
    (by rw [if_pos rfl, if_neg Bool.false_ne_true, hbegun, hcommand]; exact Phase.noConfusion)
  rw [if_pos rfl, if_neg Bool.false_ne_true, hbegun, hcommand] at hafter₁
  obtain ⟨l₁, hl₁, hrun₁⟩ := write_usb (T := dev.target line d) (l := ⟨s, 0⟩) hdel
    (List.cons_ne_nil dev.addr [command]) 1 0 0 status
  have htx₁ : s.txWrite (dev.target line d) (decide ((1 : Byte) ≠ 0)) (decide ((0 : Byte) ≠ 0))
      (decide ((0 : Byte) ≠ 0)) [dev.addr, command] = _ := hwrite₁
  rw [htx₁] at hl₁
  have hfirst : first.2 = l₁ := congrArg Prod.snd hrun₁
  -- The address for reading is taken behind it.
  have hrestarted : dev.after line d (l₁.fx2.trace ++ [] ++ [.restart]) =
      ⟨.restarted command f, σ.mem⟩ := by
    rw [List.append_nil, after_snoc, hl₁.trace, if_pos rfl, if_neg Bool.false_ne_true, hafter₁]
    rfl
  have hread : dev.takeAll [dev.addr + 1] ⟨.restarted command f, σ.mem⟩ =
      ⟨.sending (dev.reply command f σ.mem), (dev.read command σ.mem).2⟩ := by
    simp [takeAll, take]
  obtain ⟨hwrite₂, hafter₂⟩ := calm_txWrite hcalm false true [dev.addr + 1] l₁.fx2 rfl
    (by rw [if_neg Bool.false_ne_true, if_pos rfl, hrestarted, hread]; exact Phase.noConfusion)
  rw [if_neg Bool.false_ne_true, if_pos rfl, hrestarted, hread] at hafter₂
  obtain ⟨l₂, hl₂, hrun₂⟩ := write_usb (T := dev.target line d) (l := l₁) hdel
    (List.cons_ne_nil (dev.addr + 1) []) 0 1 0 status
  have htx₂ : l₁.fx2.txWrite (dev.target line d) (decide ((0 : Byte) ≠ 0))
      (decide ((1 : Byte) ≠ 0)) (decide ((0 : Byte) ≠ 0)) [dev.addr + 1] = _ := hwrite₂
  rw [htx₂] at hl₂
  have hsecond : second.2 = l₂ := by
    simp only [second, hfirst, hrun₂]
  rw [hsecond]
  refine ⟨?_, hl₂.pecEnabled.trans hl₁.pecEnabled, fun hon => ?_⟩
  · rw [hl₂.trace]
    exact hafter₂
  · have hon₁ : l₁.fx2.pecEnabled = true := hl₁.pecEnabled.trans hon
    rw [hl₂.pec]
    simp only [hon₁, hl₁.pec, hon, pecOver, if_true, Bool.false_and, Bool.false_eq_true, if_false,
      Bool.and_self]
    rfl

end BusDevice

/-! ## Calls -/

/-- Reading by hand, for any number of bytes. -/
theorem readByHand_device (hcalm : line.Calm) (hdel : ∀ k, (way k).fate = .delivered)
    {command : Byte} {f : Format} (hcmd : dev.format command = some f) {len : Nat}
    (hlen : 1 ≤ len) (status : Int) (data : Mem Byte) :
    let m := s.memOf dev line d
    let r := readByHand (usb (dev.target line d) way) status dev.addr command len data ⟨s, 0⟩
    r.2.1.read 0 len = Mem.read (dev.replyStream command f m) 0 len ∧
      r.2.2.fx2.memOf dev line d = (dev.read command m).2 ∧
      (s.pecEnabled = true →
        r.2.2.fx2.mrqPec = dev.answerPec command (r.2.1.read 0 len) ∧
        r.2.2.fx2.rcvPec = dev.replyStream command f m len) := by
  intro m r
  obtain ⟨hafter, hpec, hcrc⟩ := BusDevice.address_by_hand (s := s) hcalm hdel hcmd status rfl
  obtain ⟨l', status', hread, hend, hcodes⟩ := BusDevice.read_device hdel hlen hafter
    (List.append_ne_nil_of_right_ne_nil _ (List.cons_ne_nil _ _)) (show (1 : Byte) ≠ 0 by decide)
    status data
  have hr : r = _ := hread
  have hdata := Mem.read_write data 0 (Mem.read (dev.replyStream command f m) 0 len)
  rw [Mem.length_read] at hdata
  rw [hr]
  refine ⟨hdata, ?_, fun hon => ?_⟩
  · rw [Fx2.memOf, hend]
    rfl
  · obtain ⟨hmrq, hrcv⟩ := hcodes (hpec.trans hon)
    refine ⟨?_, hrcv⟩
    rw [hmrq, hcrc hon]
    exact congrArg (dev.answerPec command) hdata.symm

variable (dev) in
/-- The stream of a reply is the answer, and its packet error code behind it. -/
theorem read_replyStream (command : Byte) (f : Format) (m : D) :
    Mem.read (dev.replyStream command f m) 0 (f.encode (dev.read command m).1).length =
        f.encode (dev.read command m).1 ∧
      dev.replyStream command f m (f.encode (dev.read command m).1).length =
        dev.answerPec command (f.encode (dev.read command m).1) := by
  generalize hbytes : f.encode (dev.read command m).1 = bytes
  have hstream : ∀ i, dev.replyStream command f m i =
      (bytes ++ [dev.answerPec command bytes]).getD i 0xFF := by
    intro i
    rw [BusDevice.replyStream, BusDevice.reply, hbytes]
  refine ⟨List.ext_getElem? fun i => ?_, ?_⟩
  · rcases Nat.lt_or_ge i bytes.length with hi | hi
    · rw [Mem.getElem?_read _ hi, Nat.zero_add, hstream, List.getD_eq_getElem?_getD,
        List.getElem?_append_left hi, List.getElem?_eq_getElem hi]
      rfl
    · rw [List.getElem?_eq_none hi, List.getElem?_eq_none (by rwa [Mem.length_read])]
  · rw [hstream, List.getD_eq_getElem?_getD, List.getElem?_concat_length]
    rfl

/-- On a calm line, reading a command by its call, or by hand, gives the same bytes and leaves the
same device behind.  With the PEC on, the packet error code received by hand is the one computed. -/
theorem read_by_hand {way' : Nat → Delivery} {address : UInt} (hcalm : line.Calm)
    (hway : Whole way) (hdel : ∀ k, (way' k).fate = .delivered)
    (haddr : address.setWidth 8 = dev.addr) (hempty : s.Empty) {t : Transaction}
    (hop : t.op = .read t.command) (hcmd : dev.format t.command = some t.format) (status : Int)
    (data : Mem Byte) :
    let call := t.run (usb (dev.target line d) way) address ⟨s, 0⟩
    ∃ answer, call.1 = some answer ∧
      let len := (t.format.encode answer).length
      let byHand := readByHand (usb (dev.target line d) way') status dev.addr t.command len data
        ⟨s, 0⟩
      byHand.2.1.read 0 len = t.format.encode answer ∧
      byHand.2.2.fx2.memOf dev line d = call.2.fx2.memOf dev line d ∧
      (s.pecEnabled = true → byHand.2.2.fx2.rcvPec = byHand.2.2.fx2.mrqPec) := by
  intro call
  have hmanage : Manageable dev line way (s.memOf dev line d) t := by
    cases t with
    | writeBlock command data => exact BusOp.noConfusion hop
    | readBlock command => exact .inr hway
    | sendByte command | writeByte command b | writeWord command w | readByte command
    | readWord command => exact trivial
  have hdone := transaction_called haddr hcmd hempty hmanage
  obtain ⟨answer, hanswer⟩ := Option.ne_none_iff_exists'.mp
    (hdone.succeeds hcalm hway.delivered)
  have hcalled := hdone.called
  rw [hop, hanswer] at hcalled
  generalize hm : s.memOf dev line d = m at hcalled
  generalize (t.run (usb (dev.target line d) way) address ⟨s, 0⟩).2.fx2.memOf dev line d = m'
    at hcalled ⊢
  cases hcalled
  refine ⟨(dev.read t.command m).1, hanswer, ?_⟩
  intro len byHand
  have hlen : 1 ≤ len := by
    have hanswers := dev.answers m hcmd
    cases t with
    | readByte command => exact Nat.le_of_eq (Eq.symm hanswers)
    | readWord command => exact Nat.le_of_lt (Nat.le_of_eq (Eq.symm hanswers))
    | readBlock command => exact Nat.succ_pos _
    | sendByte command | writeByte command b | writeWord command w | writeBlock command data =>
        exact BusOp.noConfusion hop
  obtain ⟨hread, hmem, hcodes⟩ := readByHand_device hcalm hdel (s := s) hcmd hlen status data
  obtain ⟨hbytes, hpec⟩ := read_replyStream dev t.command t.format m
  rw [hm] at hread hmem hcodes
  have hread : byHand.2.1.read 0 len = t.format.encode (dev.read t.command m).1 :=
    hread.trans hbytes
  refine ⟨hread, hmem, fun hon => ?_⟩
  obtain ⟨hmrq, hrcv⟩ := hcodes hon
  have hrcv : byHand.2.2.fx2.rcvPec = _ := hrcv.trans hpec
  have hmrq : byHand.2.2.fx2.mrqPec = _ := hmrq
  rw [hmrq, hrcv]
  exact congrArg (dev.answerPec t.command) hread.symm

end

theorem read_by_hand_counter :
    let call := (Transaction.readBlock 3).run (usb (BusDevice.counter.target .quick 5)
      (Delivery.all 0)) 0x16 ⟨Fx2.init, 0⟩
    ∃ answer, call.1 = some answer ∧
      let len := (Format.block.encode answer).length
      let byHand := readByHand (usb (BusDevice.counter.target .quick 5) (Delivery.all 3)) 0 0x16 3
        len (fun _ => 0) ⟨Fx2.init, 0⟩
      byHand.2.1.read 0 len = Format.block.encode answer ∧
      byHand.2.2.fx2.memOf BusDevice.counter .quick 5 =
        call.2.fx2.memOf BusDevice.counter .quick 5 ∧
      (Fx2.init.pecEnabled = true → byHand.2.2.fx2.rcvPec = byHand.2.2.fx2.mrqPec) :=
  read_by_hand (t := .readBlock 3) BusLine.calm_quick whole_all_zero (Delivery.all_delivered 3) rfl
    ⟨rfl, rfl⟩ rfl rfl 0 fun _ => 0

end Smbusb
