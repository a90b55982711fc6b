import Smbusb.Host.DeviceCalls
import Smbusb.Host.Transaction

/-!
# Transactions by hand

The firmware has requests for the transactions of SMBus, and requests that send and receive any
bytes.  A program can write a command with the first, or put the bytes of its frame together and
send them with the second.

*Frames.*  The requests of the first kind send their bytes with `sendFrame`, those of the second
kind are a `Tx`.  `Tx.write_frame` says that a `WRITE` request with START and STOP sends a frame,
whose packet error code it adds, for every target.

*Calls.*  `write_by_hand` says that the two ways look the same on the bus and succeed together, for
every target.  This is so for a block that takes several transfers as well: its frame is one, while
the write by hand is one transaction over several requests.

`SEND_BYTE` is the exception: it sends no packet error code, and no STOP behind a START that fails
(`sendByte_by_hand_iff`).
-/

namespace Smbusb

open Logic Fx2lp

/-! ## Frames -/

section

variable (T : Target) (on : Bool)

/-- The bytes of a transaction, and a STOP behind one that is not ACKed. -/
theorem Tx.bytes_sendAll (bs : List Byte) (pec : Byte) (s : I2c) :
    ∃ p, Tx.bytes T on bs pec s.trace = ⟨(sendAll T bs s).1, p,
        if (sendAll T bs s).1 then (sendAll T bs s).2.trace
        else (i2cStop T (sendAll T bs s).2).trace⟩ ∧
      ((sendAll T bs s).1 = true → p = pecOver on bs pec) := by
  induction bs generalizing pec s with
  | nil =>
      refine ⟨pec, rfl, fun _ => ?_⟩
      cases on <;> rfl
  | cons b bs ih =>
      simp only [Tx.bytes, sendAll, i2cByteout_byteoutTrace]
      by_cases hack : (i2cByteout T b s).1 = true
      · simp only [if_pos hack]
        obtain ⟨p, hbytes, hpec⟩ := ih (if on then pecCrc pec b else pec) (i2cByteout T b s).2
        refine ⟨p, hbytes, fun hok => (hpec hok).trans ?_⟩
        cases on <;> rfl
      · simp only [if_neg hack]
        exact ⟨pec, by simp, fun h => Bool.noConfusion h⟩

/-- A `WRITE` request with a START and a STOP sends a frame. -/
theorem Tx.write_frame (data : List Byte) (pec : Byte) (s : I2c) :
    let r := sendFrame T (coded on data) s
    ∃ p, Tx.write T on true false true data pec s.trace = ⟨r.1, p, r.2.trace⟩ := by
  intro r
  simp only [Tx.write, Tx.conditions, i2cStart_startTrace, if_true, r, sendFrame]
  by_cases hstart : (i2cStart T s).1 = true
  · rw [if_pos hstart, if_pos hstart]
    simp only [Tx.pure_andThen, Bool.false_eq_true, if_false, List.append_nil]
    obtain ⟨p, hbytes, hpec⟩ := Tx.bytes_sendAll T on data (if on then 0 else pec) (i2cStart T s).2
    rw [hbytes, coded, sendAll_append]
    refine ⟨p, ?_⟩
    by_cases hack : (sendAll T data (i2cStart T s).2).1 = true
    · simp only [hack, if_true, Tx.pure_andThen]
      rw [hpec hack]
      cases on with
      | false => simp [Tx.finish, sendAll]
      | true =>
          have hcrc : pecOver true data 0 = crc8 data := rfl
          simp only [Tx.finish, if_true, hcrc, i2cByteout_byteoutTrace, sendAll]
          split <;> simp_all
    · have hno : (sendAll T data (i2cStart T s).2).1 = false := Bool.eq_false_iff.mpr hack
      rw [if_neg hack, Tx.andThen_of_fail hno, if_neg hack]
  · rw [if_neg hstart, if_neg hstart, Tx.andThen_of_fail rfl, Tx.andThen_of_fail rfl]
    exact ⟨if on then 0 else pec, by rw [i2cStop_trace]⟩

end

/-! ## Requests -/

section

variable {T : Target} {s : Fx2} {setup : Setup} {data : List Byte} {way : Nat → Delivery}
  {address : UInt}

/-- A write request that comes in one transfer sends its frame. -/
theorem serve_sendFrame (T : Target) {kind : WriteKind} (hkind : kind ≠ .sequence)
    (hsend : kind ≠ .sendByte) (setup : Setup) (hwrites : s.Writes data kind) :
    let r := sendFrame T (kind.frame s.pecEnabled setup data) s.toI2c
    ∃ s', serve T kind.code setup s = (r.1, s') ∧ s'.toI2c = r.2 := by
  intro r
  cases kind with
  | sendByte => exact absurd rfl hsend
  | writeByte =>
      obtain rfl : data = s.ep0buf.read 0 1 := hwrites
      exact ⟨_, serve_of_run smbWriteByte (writeByte_run s), rfl⟩
  | writeWord =>
      obtain rfl : data = s.ep0buf.read 0 2 := hwrites
      exact ⟨_, serve_of_run smbWriteWord (writeWord_run s), rfl⟩
  | block =>
      obtain ⟨hidle, hshort, hcount, hdata⟩ := hwrites
      obtain ⟨o, -, -, hrun⟩ := writeBlock_sends T loopFuel setup.value setup.index
        (Nat.le_refl _) s hidle (by omega)
      have hbyte : s.ep0buf 0 = BitVec.ofNat 8 data.length := by
        rw [← hcount, BitVec.ofNat_toNat, BitVec.setWidth_eq]
      rw [hcount, ← hdata, hbyte, ← frame_eq_blockFrame .block WriteKind.noConfusion _ setup rfl]
        at hrun
      exact ⟨_, serve_of_run smbWriteBlock hrun, rfl⟩
  | sequence => exact absurd rfl hkind

/-- The last chunk of a block. -/
theorem sendChunks_one {l : Link} {chunk : List Byte} {ok : Bool} {s' : Fx2}
    (hdel : (way l.sent).fate = .delivered)
    (hserve : serve T smbWriteBlock setup ((l.fx2.tick (way l.sent).gap).load chunk) = (ok, s')) :
    sendChunks (usb T way) setup [chunk] l =
      (if ok then .ok () else .error libusbErrorPipe, ⟨s', l.sent + 1⟩) := by
  have hout : (usb T way).out smbWriteBlock setup chunk l =
      (if ok then (chunk.length : Int) else libusbErrorPipe, ⟨s', l.sent + 1⟩) := by
    simp only [usb, hdel, hserve]
  cases ok with
  | true => simp only [sendChunks, hout, if_true, ne_eq, not_true_eq_false, if_false]
  | false =>
      have hne : libusbErrorPipe ≠ (chunk.length : Int) := by
        simp only [libusbErrorPipe]
        omega
      simp only [sendChunks, hout, Bool.false_eq_true, if_false, hne, ne_eq, not_false_eq_true,
        if_true]

/-- The rest of a block, from the chunk `k + 1` on, has the frame sent. -/
theorem Pending.sendChunks_frame {s₀ : Fx2} {m n k : Nat} {l : Link}
    (hp : Pending s₀ data m l.fx2) (hlen : data.length < 256) (hm : m < data.length)
    (hsent : l.sent = k + 1) (hcount : l.fx2.count = BitVec.ofNat 16 (elapsed way k))
    (hdel : ∀ k, (way k).fate = .delivered) (htime : InTime way n)
    (hn : k + 1 + (chunks 64 (data.drop m)).length ≤ n) :
    ∃ b l', b.trace = s₀.trace ∧
      l'.fx2.toI2c = (sendFrame T (writeFrame s₀.pecEnabled setup data) b).2 ∧
      sendChunks (usb T way) setup (chunks 64 (data.drop m)) l =
        (if (sendFrame T (writeFrame s₀.pecEnabled setup data) b).1 then .ok ()
          else .error libusbErrorPipe, l') := by
  induction hrest : data.length - m using Nat.strong_induction_on generalizing m k l with
  | _ rest ih =>
      have hdrop : (data.drop m).length = data.length - m := List.length_drop
      have hticked := hp.tick (way l.sent).gap
      have hcount' : (l.fx2.tick (way l.sent).gap).count =
          BitVec.ofNat 16 (elapsed way (k + 1)) := by
        rw [elapsed_succ, BitVec.ofNat_add, ← hcount, hsent]
        rfl
      have hlive : (l.fx2.tick (way l.sent).gap).count ≤ blockSeqTimeout := by
        rw [hcount']
        have hpos : 0 < (chunks 64 (data.drop m)).length := by
          rcases Nat.lt_or_ge 64 (data.drop m).length with hlong | hshort
          · rw [chunks_cons (by omega) (by omega)]
            exact Nat.succ_pos _
          · rw [chunks_last (by omega) hshort]
            exact Nat.one_pos
        exact htime (k + 1) (by omega) ⟨fun j _ => hdel j, by rw [hdel]; rfl⟩
      rcases Nat.lt_or_ge (m + 64) data.length with hlong | hlast
      · obtain ⟨s', hserve, hp', hcount''⟩ := hticked.stores T setup hlive hlen hlong
        have hcs := chunks_cons (n := 64) (by omega) (l := data.drop m) (by omega)
        rw [List.drop_drop] at hcs
        rw [hcs, List.length_cons] at hn
        obtain ⟨status, hsend⟩ := sendChunks_served way (chunks 64 (data.drop (m + 64)))
          (by rw [hdel]; rfl) hserve
        rw [hcs, hsend, if_pos ⟨rfl, hdel _⟩]
        exact ih (data.length - (m + 64)) (by omega) (k := k + 1) hp' hlong (by rw [hsent])
          (by rw [hcount'', hcount']) (by omega) rfl
      · obtain ⟨s', hserve, hbus, -⟩ := hticked.completes T setup hlive hlen hm hlast
        have hcs := chunks_last (n := 64) (l := data.drop m) (by omega) (by omega)
        refine ⟨(l.fx2.tick (way l.sent).gap).toI2c, ⟨s', l.sent + 1⟩, hticked.trace, hbus, ?_⟩
        rw [hcs, sendChunks_one (hdel _) hserve]

/-! ## Calls -/

/-- A call has sent a frame, and has failed if it was not ACKed. -/
def FrameDone (T : Target) (frame : List Byte) (s : Fx2) (r : Option (List Byte)) (s' : Fx2) :
    Prop :=
  ∃ b : I2c, b.trace = s.trace ∧ s'.toI2c = (sendFrame T frame b).2 ∧
    (r = none ↔ (sendFrame T frame b).1 = false)

theorem outcome_none (status : Int) (data : List Byte) :
    outcome status data = none ↔ status < 0 := by
  rw [outcome]
  split
  · exact iff_of_true rfl ‹_›
  · exact iff_of_false (Option.some_ne_none _) ‹_›

variable (address) in
/-- A call with one transfer, which is delivered. -/
theorem OneOut.run_delivered {t : Transaction} {kind : WriteKind} {sent : List Byte}
    (hone : OneOut t kind data sent) (hdel : (way 0).fate = .delivered) {ok : Bool} {s' : Fx2}
    (hserve : serve T kind.code (setupOf address t.command) ((s.tick (way 0).gap).load sent) =
      (ok, s')) :
    ∃ r, t.run (usb T way) address ⟨s, 0⟩ = (r, ⟨s', 1⟩) ∧ (r = none ↔ ok = false) := by
  have hout : (usb T way).out kind.code (setupOf address t.command) sent ⟨s, 0⟩ =
      (if ok then (sent.length : Int) else libusbErrorPipe, ⟨s', 1⟩) := by
    simp only [usb, hdel, hserve]
  have hstatus : (if ok then (sent.length : Int) else libusbErrorPipe) < 0 ↔ ok = false := by
    cases ok with
    | true => exact iff_of_false (Int.not_lt.mpr (Int.natCast_nonneg _)) Bool.noConfusion
    | false => exact iff_of_true (show (-9 : Int) < 0 by decide) rfl
  have hlength : (if ok then (sent.length : Int) else libusbErrorPipe) < 0 ∨
      (if ok then (sent.length : Int) else libusbErrorPipe) = sent.length := by
    cases ok with
    | true => exact .inr rfl
    | false => exact .inl (hstatus.mpr rfl)
  exact ⟨_, hone.run (usb T way) address hout hlength, by rw [outcome_none, hstatus]⟩

/-- A write in one transfer. -/
theorem OneOut.frameDone {t : Transaction} {kind : WriteKind} {sent : List Byte}
    (hone : OneOut t kind data sent) (hsend : kind ≠ .sendByte) (hempty : s.Empty)
    (hdel : (way 0).fate = .delivered) :
    let r := t.run (usb T way) address ⟨s, 0⟩
    FrameDone T (kind.frame s.pecEnabled (setupOf address t.command) data) s r.1 r.2.fx2 := by
  obtain ⟨s', hserve, hbus⟩ := serve_sendFrame T hone.noSequence hsend (setupOf address t.command)
    (hone.writes (hempty.tick (way 0).gap))
  obtain ⟨r, hrun, hfails⟩ := hone.run_delivered address hdel hserve
  rw [hrun]
  exact ⟨((s.tick (way 0).gap).load sent).toI2c, rfl, hbus, hfails⟩

/-- A block in several transfers. -/
theorem long_frameDone (T : Target) (address : UInt) (command : Byte) (hway : Whole way)
    (hempty : s.Empty) (hlong : 64 < data.length) (hlen : data.length ≤ tempSize) :
    let r := (Transaction.writeBlock command data).run (usb T way) address ⟨s, 0⟩
    FrameDone T (WriteKind.block.frame s.pecEnabled (setupOf address command) data) s r.1
      r.2.fx2 := by
  intro r
  have hbyte : data.length < 256 := Nat.lt_of_le_of_lt hlen (by decide)
  have hchunks : (chunks 64 (BitVec.ofNat 8 data.length :: data)).length ≤ 4 := by
    refine length_chunks_le (by decide) ?_
    rw [List.length_cons]
    exact Nat.succ_le_succ (hlen.trans (by decide))
  have hcs : chunks 64 (BitVec.ofNat 8 data.length :: data) =
      (BitVec.ofNat 8 data.length :: data.take 63) :: chunks 64 (data.drop 63) :=
    chunks_cons (by omega) (by simp; omega)
  have hidle : (s.tick (way 0).gap).expire.templen = 0 := by
    rw [Fx2.expire_of_empty (hempty.tick _).1]
    exact hempty.1
  obtain ⟨s', hserve, hp, hcount⟩ :=
    Pending.opens T (setupOf address command) data hidle hlong hbyte
  have hp : Pending s data 63 s' :=
    ⟨hp.trace, hp.pec, hp.templen, hp.tempptr, hp.stored, hp.oob⟩
  obtain ⟨status, hsend⟩ := sendChunks_served (l := ⟨s, 0⟩) way (chunks 64 (data.drop 63))
    (by rw [hway.delivered]; rfl) hserve
  rw [if_pos ⟨rfl, hway.delivered 0⟩] at hsend
  obtain ⟨b, l', hb, hbus, hrest⟩ := hp.sendChunks_frame (T := T) (k := 0) (l := ⟨s', 1⟩)
    hbyte (by omega) rfl (by rw [hcount]; rfl) hway.delivered hway.inTime
    (by rw [hcs, List.length_cons] at hchunks; omega)
  have hr : r = _ := run_writeBlock (usb T way) address command hbyte ⟨s, 0⟩
  rw [hr, hcs, hsend, hrest]
  have hframe : WriteKind.block.frame s.pecEnabled (setupOf address command) data =
      writeFrame s.pecEnabled (setupOf address command) data :=
    frame_eq_blockFrame .block WriteKind.noConfusion _ _ rfl
  rw [hframe]
  generalize hok : (sendFrame T (writeFrame s.pecEnabled (setupOf address command) data) b).1 = ok
  cases ok with
  | true =>
      refine ⟨b, hb, hbus, ?_⟩
      rw [hok]
      exact iff_of_false (Option.some_ne_none _) Bool.noConfusion
  | false => exact ⟨b, hb, hbus, by rw [hok]; exact iff_of_true rfl rfl⟩

/-- The bytes of a call that writes: address, command, and the data in its format. -/
def Transaction.bytes (t : Transaction) (address : UInt) : List Byte :=
  match t.op with
  | .write command data => address.setWidth 8 :: command :: t.format.encode data
  | .read command => [address.setWidth 8, command]

/-- Every call that writes sends its frame, `SEND_BYTE` apart. -/
theorem write_frameDone (T : Target) (address : UInt) (hway : Whole way) (hempty : s.Empty)
    {t : Transaction} (hop : t.op = .write t.command data) (hsend : t.format ≠ .send)
    (hlen : data.length ≤ tempSize) (h64 : data.length ≠ 64) :
    let r := t.run (usb T way) address ⟨s, 0⟩
    FrameDone T (coded s.pecEnabled (t.bytes address)) s r.1 r.2.fx2 := by
  have hsame : ∀ (kind : WriteKind) (command : Byte), kind ≠ .sendByte →
      kind.payload data = t.format.encode data → t.command = command →
      kind.frame s.pecEnabled (setupOf address command) data =
        coded s.pecEnabled (t.bytes address) := by
    intro kind command hkind hpayload hcommand
    have hindex : toByte (setupOf address command).index = command := toByte_setWidth command
    simp only [WriteKind.frame, toByte_setupOf, hindex, hpayload, coded, Transaction.bytes, hop,
      hcommand, hkind, ne_eq, not_false_eq_true, and_true]
  cases t with
  | sendByte command => exact absurd rfl hsend
  | writeByte command b =>
      obtain rfl : [b] = data := (BusOp.write.inj hop).2
      rw [← hsame .writeByte command WriteKind.noConfusion rfl rfl]
      exact (oneOut_writeByte command b).frameDone WriteKind.noConfusion hempty (hway.delivered 0)
  | writeWord command w =>
      obtain rfl : wordBytes w = data := (BusOp.write.inj hop).2
      rw [← hsame .writeWord command WriteKind.noConfusion rfl rfl]
      exact (oneOut_writeWord command w).frameDone WriteKind.noConfusion hempty (hway.delivered 0)
  | writeBlock command bs =>
      obtain rfl : bs = data := (BusOp.write.inj hop).2
      rw [← hsame .block command WriteKind.noConfusion rfl rfl]
      rcases Nat.lt_or_ge 63 bs.length with hlong | hshort
      · exact long_frameDone T address command hway hempty (by omega) hlen
      · exact (oneOut_writeBlock command hshort).frameDone WriteKind.noConfusion hempty
          (hway.delivered 0)
  | readByte command => exact BusOp.noConfusion hop
  | readWord command => exact BusOp.noConfusion hop
  | readBlock command => exact BusOp.noConfusion hop

/-- A write by hand is a frame. -/
theorem write_by_hand_frame (T : Target) (hdel : ∀ k, (way k).fate = .delivered)
    {bytes : List Byte} (hne : bytes ≠ []) (status : Int) {b : I2c} (hb : b.trace = s.trace) :
    let r := Fx2lp.write (usb T way) status 1 0 1 bytes ⟨s, 0⟩
    r.2.fx2.trace = (sendFrame T (coded s.pecEnabled bytes) b).2.trace ∧
      (r.1 < 0 ↔ (sendFrame T (coded s.pecEnabled bytes) b).1 = false) := by
  intro r
  obtain ⟨l, hafter, hwrite⟩ := write_usb (T := T) (l := ⟨s, 0⟩) hdel hne 1 0 1 status
  obtain ⟨p, htx⟩ := Tx.write_frame T s.pecEnabled bytes s.mrqPec b
  rw [hb] at htx
  have hsame : Fx2.txWrite T s (decide ((1 : Byte) ≠ 0)) (decide ((0 : Byte) ≠ 0))
      (decide ((1 : Byte) ≠ 0)) bytes = _ := htx
  rw [hsame] at hafter hwrite
  have hr : r = _ := hwrite
  rw [hr]
  refine ⟨hafter.trace, ?_⟩
  cases (sendFrame T (coded s.pecEnabled bytes) b).1 with
  | true => exact iff_of_false (Int.not_lt.mpr (Int.natCast_nonneg _)) Bool.noConfusion
  | false => exact iff_of_true (show (-9 : Int) < 0 by decide) rfl

/-- Writing a command by its call, or by hand, is the same on the bus, for every target: the same
events, and both succeed or none. -/
theorem write_by_hand (T : Target) {way' : Nat → Delivery} (address : UInt) (hway : Whole way)
    (hdel : ∀ k, (way' k).fate = .delivered) (hempty : s.Empty) {t : Transaction}
    (hop : t.op = .write t.command data) (hsend : t.format ≠ .send)
    (hlen : data.length ≤ tempSize) (h64 : data.length ≠ 64) (status : Int) :
    let call := t.run (usb T way) address ⟨s, 0⟩
    let byHand := Fx2lp.write (usb T way') status 1 0 1 (t.bytes address) ⟨s, 0⟩
    call.2.fx2.trace = byHand.2.fx2.trace ∧ (call.1 = none ↔ byHand.1 < 0) := by
  intro call byHand
  obtain ⟨b, hb, hbus, hfails⟩ := write_frameDone T address hway hempty hop hsend hlen h64
  have hne : t.bytes address ≠ [] := by
    rw [Transaction.bytes, hop]
    exact List.cons_ne_nil _ _
  obtain ⟨htrace, hstatus⟩ := write_by_hand_frame T hdel hne status hb
  exact ⟨(congrArg I2c.trace hbus).trans htrace.symm, hfails.trans hstatus.symm⟩

/-! ## `SEND_BYTE` -/

/-- A frame with and without its packet error code. -/
theorem sendFrame_code_iff {b : I2c} (hstart : (i2cStart T b).1 = true) (on : Bool)
    (bs : List Byte) :
    (sendFrame T bs b).2.trace = (sendFrame T (coded on bs) b).2.trace ↔
      on = false ∨ (sendFrame T bs b).1 = false := by
  rw [sendFrame_of_start (Prod.ext hstart rfl), sendFrame_of_start (Prod.ext hstart rfl), coded]
  cases on with
  | false => simp
  | true =>
      simp only [if_true, sendAll_append, i2cStop_trace, List.append_cancel_right_eq]
      generalize hr : sendAll T bs (i2cStart T b).2 = r
      cases hok : r.1 with
      | false => simp
      | true =>
          -- One more byte is on the bus, whatever its answer.
          obtain ⟨a, -, hext⟩ := i2cByteout_extends T (crc8 bs) r.2
          have hlonger : r.2.trace ≠ (sendAll T [crc8 bs] r.2).2.trace := by
            have hone : (sendAll T [crc8 bs] r.2).2 = (i2cByteout T (crc8 bs) r.2).2 := by
              simp only [sendAll]
              split <;> rfl
            rw [hone, hext]
            exact fun h => List.cons_ne_nil _ _ (List.self_eq_append_right.mp h)
          simpa using hlonger

/-- `SEND_BYTE` sends a frame, when its START succeeds. -/
theorem sendByte_frameDone (T : Target) (address : UInt) (command : Byte)
    (hdel : (way 0).fate = .delivered)
    (hstart : (startTrace T i2cMaxRetries s.trace).1 = true) :
    let r := (Transaction.sendByte command).run (usb T way) address ⟨s, 0⟩
    FrameDone T ((Transaction.sendByte command).bytes address) s r.1 r.2.fx2 := by
  obtain ⟨b, hb⟩ : ∃ b, b = ((s.tick (way 0).gap).load [0]).toI2c := ⟨_, rfl⟩
  have hs : b.trace = s.trace := by rw [hb]; rfl
  rw [← hs, i2cStart_startTrace, hb] at hstart
  obtain ⟨n, hrun⟩ := sendByte_run (setupOf address command).value (setupOf address command).index
    (Prod.ext hstart rfl)
  have hindex : toByte (setupOf address command).index = command := toByte_setWidth command
  rw [WriteKind.frame, if_neg fun h => h.2 rfl, toByte_setupOf, hindex, List.append_nil] at hrun
  obtain ⟨r, hcall, hfails⟩ := (oneOut_sendByte command).run_delivered address hdel
    (serve_of_run smbSendByte hrun)
  rw [hcall]
  exact ⟨((s.tick (way 0).gap).load [0]).toI2c, rfl, rfl, hfails⟩

/-- Otherwise it sends nothing, not even a STOP. -/
theorem sendByte_unsent (T : Target) (address : UInt) (command : Byte)
    (hdel : (way 0).fate = .delivered)
    (hstart : (startTrace T i2cMaxRetries s.trace).1 = false) :
    ((Transaction.sendByte command).run (usb T way) address ⟨s, 0⟩).2.fx2.trace =
      (startTrace T i2cMaxRetries s.trace).2 := by
  obtain ⟨b, hb⟩ : ∃ b, b = ((s.tick (way 0).gap).load [0]).toI2c := ⟨_, rfl⟩
  have hs : b.trace = s.trace := by rw [hb]; rfl
  rw [← hs, i2cStart_startTrace, hb] at hstart ⊢
  have hrun := sendByte_noStart (setupOf address command).value (setupOf address command).index
    hstart
  obtain ⟨r, hcall, -⟩ := (oneOut_sendByte command).run_delivered address hdel
    (serve_of_run smbSendByte hrun)
  rw [hcall]

/-- Sending a byte by its call, or by hand, is the same on the bus exactly when the START succeeds
and no packet error code is to be sent: it is off, or the byte is refused. -/
theorem sendByte_by_hand_iff (T : Target) {way' : Nat → Delivery} (address : UInt) (command : Byte)
    (hdel : (way 0).fate = .delivered) (hdel' : ∀ k, (way' k).fate = .delivered) (status : Int) :
    let t := Transaction.sendByte command
    let call := t.run (usb T way) address ⟨s, 0⟩
    let byHand := Fx2lp.write (usb T way') status 1 0 1 (t.bytes address) ⟨s, 0⟩
    call.2.fx2.trace = byHand.2.fx2.trace ↔
      (startTrace T i2cMaxRetries s.trace).1 = true ∧ (s.pecEnabled = false ∨ call.1 = none) := by
  intro t call byHand
  have hne : t.bytes address ≠ [] := List.cons_ne_nil _ _
  cases hstart : (startTrace T i2cMaxRetries s.trace).1 with
  | true =>
      obtain ⟨b, hb, hbus, hfails⟩ := sendByte_frameDone T address command hdel hstart
      obtain ⟨hbyHand, -⟩ := write_by_hand_frame T hdel' hne status hb
      have hbus : call.2.fx2.toI2c = _ := hbus
      have hfails : call.1 = none ↔ _ := hfails
      have hbyHand : byHand.2.fx2.trace = _ := hbyHand
      rw [← hb, i2cStart_startTrace] at hstart
      rw [hbus, hbyHand, sendFrame_code_iff hstart, hfails]
      simp only [true_and]
  | false =>
      have hcall : call.2.fx2.trace = _ := sendByte_unsent T address command hdel hstart
      obtain ⟨hbyHand, -⟩ := write_by_hand_frame T hdel' hne status (b := s.toI2c) rfl
      have hbyHand : byHand.2.fx2.trace = _ := hbyHand
      rw [hcall, hbyHand]
      rw [i2cStart_startTrace] at hstart ⊢
      have hno : ¬ (i2cStart T s.toI2c).1 = true := Bool.eq_false_iff.mp hstart
      refine iff_of_false ?_ fun h => Bool.noConfusion h.1
      simp only [sendFrame, if_neg hno, i2cStop_trace]
      exact fun h => List.cons_ne_nil _ _ (List.self_eq_append_right.mp h)

end

theorem write_by_hand_block :
    let t := Transaction.writeBlock 0x20 (List.replicate 70 7)
    let call := t.run (usb (.answers [1, 2, 0x33]) (Delivery.all 0)) 0x16 ⟨Fx2.init, 0⟩
    let byHand := Fx2lp.write (usb (.answers [1, 2, 0x33]) (Delivery.all 3)) 0 1 0 1
      (t.bytes 0x16) ⟨Fx2.init, 0⟩
    call.2.fx2.trace = byHand.2.fx2.trace ∧ (call.1 = none ↔ byHand.1 < 0) :=
  write_by_hand (.answers [1, 2, 0x33]) 0x16 whole_all_zero (Delivery.all_delivered 3)
    ⟨rfl, rfl⟩ (t := .writeBlock 0x20 (List.replicate 70 7)) rfl Format.noConfusion (by decide)
    (by decide) 0

theorem sendByte_by_hand_battery :
    let t := Transaction.sendByte 0x20
    let call := t.run (usb (.answers []) (Delivery.all 0)) 0x16 ⟨Fx2.init, 0⟩
    let byHand := Fx2lp.write (usb (.answers []) (Delivery.all 3)) 0 1 0 1 (t.bytes 0x16)
      ⟨Fx2.init, 0⟩
    call.2.fx2.trace = byHand.2.fx2.trace ↔
      (startTrace (.answers []) i2cMaxRetries Fx2.init.trace).1 = true ∧
        (Fx2.init.pecEnabled = false ∨ call.1 = none) :=
  sendByte_by_hand_iff (.answers []) 0x16 0x20 rfl (Delivery.all_delivered 3) 0

end Smbusb
