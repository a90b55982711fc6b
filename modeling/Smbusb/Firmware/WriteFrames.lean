import Smbusb.Firmware.Transaction
import Smbusb.Firmware.WriteBlock

/-!
# Write frames

What a write request puts on the bus, for a target that may refuse any byte.

*The bus.*  `FrameSent frame ok` is what is seen of a frame behind its START: all its bytes,
each of them ACKed, or the bytes up to the first that was not ACKed; then STOP, and nothing
behind it.  A byte whose answer does not come in time has made a STOP already.

*The firmware.*  The five send paths of `handle_vendorcommand` write their frame out by hand.
Each of them is `sendFrame` (`writeByte_run`, `writeWord_run`, and `Firmware.WriteBlock` for the
two of a block), so that `write_frames` is one theorem about `sendFrame`.

*Sequences.*  A long block comes in several requests.  They buffer it (`buffers_open`,
`buffers_store`), and the one that completes it sends it.
-/

namespace Smbusb

open Logic Prog Fw Handler

/-! ## On the bus -/

/-- What the bus sees of a frame behind its START, when the request says `ok`. -/
inductive FrameSent (frame : List Byte) : Bool → List Event → Prop
  /-- The whole frame was ACKed. -/
  | whole : FrameSent frame true (acked frame ++ [.stop])
  /-- The bytes before `b` were ACKed, and `b` was not. -/
  | refused {pre post : List Byte} {b : Byte} {a : Option Answer} :
      frame = pre ++ b :: post → a ≠ some .ack →
      FrameSent frame false (acked pre ++ byteEvents b a ++ [.stop])

theorem FrameSent.cons {frame : List Byte} {ok : Bool} {ext : List Event}
    (h : FrameSent frame ok ext) (b : Byte) : FrameSent (b :: frame) ok (acked [b] ++ ext) := by
  cases h with
  | whole => exact .whole
  | @refused pre post c a hframe hack =>
      rw [hframe, ← List.cons_append, List.append_assoc]
      have hcons : acked [b] ++ (acked pre ++ (byteEvents c a ++ [.stop])) =
          acked (b :: pre) ++ byteEvents c a ++ [.stop] := by
        simp [acked]
      rw [hcons]
      exact .refused rfl hack

/-! ## Sending -/

section

variable {T : Target}

/-- A string, and a STOP behind it. -/
theorem sendAll_sent (bs : List Byte) (s : I2c) :
    ∃ ext, Extends s ext (i2cStop T (sendAll T bs s).2) ∧
      FrameSent bs (sendAll T bs s).1 ext := by
  induction bs generalizing s with
  | nil => exact ⟨[.stop], i2cStop_extends T s, .whole⟩
  | cons b bs ih =>
      obtain ⟨a, ha, hb⟩ := i2cByteout_extends T b s
      by_cases hack : a = some .ack
      · obtain ⟨ext, hext, hsent⟩ := ih (i2cByteout T b s).2
        have hyes : (i2cByteout T b s).1 = true := by simp [ha, hack]
        have hone : Extends s (acked [b]) (i2cByteout T b s).2 := by
          rw [hack] at hb
          exact hb
        refine ⟨acked [b] ++ ext, ?_, ?_⟩
        · rw [sendAll, if_pos hyes]
          exact hone.trans hext
        · rw [sendAll, if_pos hyes]
          exact hsent.cons b
      · have hno : ¬ (i2cByteout T b s).1 = true := by simp [ha, hack]
        rw [sendAll, if_neg hno]
        refine ⟨_, hb.trans (i2cStop_extends T _), ?_⟩
        exact .refused (List.nil_append (b :: bs)).symm hack

theorem sendFrame_of_start {frame : List Byte} {s b : I2c} (h : i2cStart T s = (true, b)) :
    sendFrame T frame s = ((sendAll T frame b).1, i2cStop T (sendAll T frame b).2) := by
  rw [sendFrame, h]
  rfl

/-- A frame whose START succeeded. -/
theorem sendFrame_sent (frame : List Byte) {s b : I2c} (h : i2cStart T s = (true, b)) :
    ∃ ext, Extends b ext (sendFrame T frame s).2 ∧ FrameSent frame (sendFrame T frame s).1 ext := by
  rw [sendFrame_of_start h]
  exact sendAll_sent frame b

variable (T) in
/-- The rest of a frame, as the precondition of what holds behind its STOP. -/
def SendThen (Q : Bool → I2c → Prop) : List Byte → I2c → Prop
  | [], b => Q true (i2cStop T b)
  | x :: xs, b =>
      if (i2cByteout T x b).1 = true then SendThen Q xs (i2cByteout T x b).2
      else Q false (i2cStop T (i2cByteout T x b).2)

theorem sendThen_iff {Q : Bool → I2c → Prop} (bs : List Byte) (b : I2c) :
    SendThen T Q bs b ↔ Q (sendAll T bs b).1 (i2cStop T (sendAll T bs b).2) := by
  induction bs generalizing b with
  | nil => rfl
  | cons x xs ih =>
      rw [SendThen, sendAll]
      split
      · exact ih _
      · rfl

/-- A frame, as the precondition of what holds behind its STOP. -/
theorem sendFrame_iff {Q : Bool → I2c → Prop} (frame : List Byte) (s : I2c) :
    Q (sendFrame T frame s).1 (sendFrame T frame s).2 ↔
      if (i2cStart T s).1 = true then SendThen T Q frame (i2cStart T s).2
      else Q false (i2cStop T (i2cStart T s).2) := by
  rw [sendFrame]
  split
  · rw [sendThen_iff]
  · rfl

end

/-! ## Targets that take a frame -/

/-- The target ACKs every byte in time, after what was done so far. -/
def Target.Acks (T : Target) : List Event → List Byte → Prop
  | _, [] => True
  | tr, b :: bs =>
      ((T.out tr b).1 ≤ i2cTimeout ∧ (T.out tr b).2 = .ack) ∧ Target.Acks T (tr ++ acked [b]) bs

/-- `BERR` shows after so many STARTs, and not after the next. -/
def Target.StartsAfter (T : Target) (tr : List Event) (k : Nat) : Prop :=
  (∀ j < k, T.start (tr ++ List.replicate j (.start true)) = true) ∧
    T.start (tr ++ List.replicate k (.start true)) = false

/-- One of the STARTs succeeds, and the target ACKs the whole frame. -/
def Target.Takes (T : Target) (tr : List Event) (frame : List Byte) : Prop :=
  ∃ k < i2cMaxRetries, T.StartsAfter tr k ∧
    T.Acks (tr ++ List.replicate k (.start true) ++ [.start false]) frame

section

variable {T : Target}

theorem i2cByteout_of_ack {x : Byte} {b : I2c}
    (h : (T.out b.trace x).1 ≤ i2cTimeout ∧ (T.out b.trace x).2 = .ack) :
    (i2cByteout T x b).1 = true ∧ (i2cByteout T x b).2.trace = b.trace ++ acked [x] := by
  simp [i2cByteout, I2c.await, h.1, h.2, acked]

theorem i2cByteout_acked {x : Byte} {b : I2c} (h : (i2cByteout T x b).1 = true) :
    (T.out b.trace x).1 ≤ i2cTimeout ∧ (T.out b.trace x).2 = .ack := by
  by_cases hin : (T.out b.trace x).1 ≤ i2cTimeout
  · exact ⟨hin, by simpa [i2cByteout, I2c.await, hin] using h⟩
  · simp [i2cByteout, I2c.await, hin] at h

theorem sendAll_acks_iff (bs : List Byte) (b : I2c) :
    (sendAll T bs b).1 = true ↔ T.Acks b.trace bs := by
  induction bs generalizing b with
  | nil => exact iff_of_true rfl trivial
  | cons x xs ih =>
      rw [sendAll, Target.Acks]
      by_cases h : (i2cByteout T x b).1 = true
      · obtain ⟨-, htrace⟩ := i2cByteout_of_ack (i2cByteout_acked h)
        rw [if_pos h, ih, htrace, and_iff_right (i2cByteout_acked h)]
      · rw [if_neg h]
        exact iff_of_false Bool.false_ne_true fun hack => h (i2cByteout_of_ack hack.1).1

theorem startsAfter_succ {tr : List Event} (h : T.start tr = true) (k : Nat) :
    T.StartsAfter tr (k + 1) ↔ T.StartsAfter (tr ++ [.start true]) k := by
  have hcons : ∀ j, tr ++ List.replicate (j + 1) (Event.start true) =
      tr ++ [.start true] ++ List.replicate j (.start true) := by
    intro j
    rw [List.replicate_succ, List.append_assoc]
    rfl
  rw [Target.StartsAfter, Target.StartsAfter, hcons]
  refine and_congr_left fun _ => ⟨fun hall j hj => ?_, fun hall j hj => ?_⟩
  · rw [← hcons]
    exact hall (j + 1) (Nat.succ_lt_succ hj)
  · cases j with
    | zero => rwa [List.replicate_zero, List.append_nil]
    | succ j =>
        rw [hcons]
        exact hall j (Nat.lt_of_succ_lt_succ hj)

theorem i2cStartTries_iff {P : List Event → Prop} (tries : Nat) (b : I2c) :
    (i2cStartTries T tries b).1 = true ∧ P (i2cStartTries T tries b).2.trace ↔
      ∃ k < tries, T.StartsAfter b.trace k ∧
        P (b.trace ++ List.replicate k (.start true) ++ [.start false]) := by
  induction tries generalizing b with
  | zero => simp [i2cStartTries]
  | succ tries ih =>
      rw [i2cStartTries]
      by_cases hberr : T.start b.trace = true
      · rw [if_pos hberr, ih]
        constructor
        · rintro ⟨k, hk, hstarts, hP⟩
          refine ⟨k + 1, Nat.succ_lt_succ hk, (startsAfter_succ hberr k).mpr hstarts, ?_⟩
          simpa [List.replicate_succ] using hP
        · rintro ⟨k, hk, hstarts, hP⟩
          cases k with
          | zero =>
              have hfree := hstarts.2
              rw [List.replicate_zero, List.append_nil, hberr] at hfree
              exact Bool.noConfusion hfree
          | succ k =>
              refine ⟨k, Nat.lt_of_succ_lt_succ hk, (startsAfter_succ hberr k).mp hstarts, ?_⟩
              simpa [List.replicate_succ] using hP
      · rw [if_neg hberr, and_iff_right rfl]
        constructor
        · intro hP
          refine ⟨0, Nat.succ_pos _, ⟨fun j hj => absurd hj (Nat.not_lt_zero j), ?_⟩, ?_⟩
          · simpa using hberr
          · simpa using hP
        · rintro ⟨k, -, hstarts, hP⟩
          cases k with
          | zero => simpa using hP
          | succ k =>
              refine absurd ?_ hberr
              simpa using hstarts.1 0 (Nat.succ_pos k)

/-- A frame is sent exactly when the target takes it. -/
theorem sendFrame_takes_iff (frame : List Byte) (b : I2c) :
    (sendFrame T frame b).1 = true ↔ T.Takes b.trace frame := by
  have h := i2cStartTries_iff (T := T) (P := fun tr => T.Acks tr frame) i2cMaxRetries b
  rw [Target.Takes, ← h, ← i2cStart, ← sendAll_acks_iff, sendFrame]
  by_cases hstart : (i2cStart T b).1 = true
  · rw [if_pos hstart, and_iff_right hstart]
  · rw [if_neg hstart]
    exact iff_of_false Bool.false_ne_true fun h => hstart h.1

end

/-! ## The requests -/

/-- The requests that write a frame.  `sequence` is the request that completes a block that
came in several. -/
inductive WriteKind where
  | sendByte
  | writeByte
  | writeWord
  | block
  | sequence
deriving DecidableEq, Repr

namespace WriteKind

/-- The request code. -/
def code : WriteKind → Byte
  | sendByte => smbSendByte
  | writeByte => smbWriteByte
  | writeWord => smbWriteWord
  | block => smbWriteBlock
  | sequence => smbWriteBlock

/-- The bytes behind the command: a block has its count in front. -/
def payload (data : List Byte) : WriteKind → List Byte
  | block => BitVec.ofNat 8 data.length :: data
  | sequence => BitVec.ofNat 8 data.length :: data
  | _ => data

/-- The frame: address, command and payload, and the PEC of them when it is on. -/
def frame (kind : WriteKind) (pec : Bool) (setup : Setup) (data : List Byte) : List Byte :=
  let bytes := toByte setup.value :: toByte setup.index :: kind.payload data
  bytes ++ if pec = true ∧ kind ≠ sendByte then [crc8 bytes] else []

end WriteKind

/-- The first `k` bytes of a block are buffered, and the others are to come. -/
structure Fx2.Buffers (s : Fx2) (data : List Byte) (k : Nat) : Prop where
  len : s.templen.toNat = data.length
  ptr : s.tempptr.toNat = k
  temp : s.temp.read 0 k = data.take k

/-- The state in which a request of this kind writes the data. -/
def Fx2.Writes (s : Fx2) (data : List Byte) : WriteKind → Prop
  | .sendByte => data = []
  | .writeByte => data = s.ep0buf.read 0 1
  | .writeWord => data = s.ep0buf.read 0 2
  | .block => s.expire.templen = 0 ∧ data.length ≤ 63 ∧ (s.ep0buf 0).toNat = data.length ∧
      data = s.ep0buf.read 1 data.length
  | .sequence => s.count ≤ blockSeqTimeout ∧ 65 ≤ data.length ∧ data.length ≤ tempSize ∧
      ∃ k, s.Buffers data k ∧ k < data.length ∧ data.length ≤ k + 64 ∧
        s.ep0buf.read 0 (data.length - k) = data.drop k

section

variable {T : Target} {smbAddr smbCmd : Word} {s : Fx2}

theorem frame_of_off (kind : WriteKind) {pec : Bool} (setup : Setup) (data : List Byte)
    (h : ¬ pec = true) :
    kind.frame pec setup data = toByte setup.value :: toByte setup.index :: kind.payload data := by
  rw [WriteKind.frame, if_neg fun hpec => h hpec.1]
  exact List.append_nil _

theorem frame_of_on {kind : WriteKind} (hkind : kind ≠ .sendByte) {pec : Bool} (setup : Setup)
    (data : List Byte) (h : pec = true) :
    kind.frame pec setup data = toByte setup.value :: toByte setup.index :: kind.payload data ++
      [crc8 (toByte setup.value :: toByte setup.index :: kind.payload data)] := by
  rw [WriteKind.frame, if_pos ⟨h, hkind⟩]

theorem frame_eq_blockFrame (kind : WriteKind) (hkind : kind ≠ .sendByte) (pec : Bool)
    (setup : Setup) {count : Byte} {data : List Byte} (h : kind.payload data = count :: data) :
    kind.frame pec setup data =
      blockFrame pec (toByte setup.value) (toByte setup.index) count data := by
  simp only [WriteKind.frame, blockFrame, h, hkind, ne_eq, not_false_eq_true, and_true]

theorem ep0_in_bounds (i : Nat) (h : i < 64) (o : Bool) : (o || decide (ep0Size ≤ i)) = o := by
  have : ¬ ep0Size ≤ i := Nat.not_le.mpr h
  simp [this]

/-- A handler whose precondition is that of the frame sends the frame. -/
theorem run_of_wp_frame {m : Fw Bool} {frame : List Byte}
    (h : ∀ Q : Bool → Fx2 → Prop, wp m Q (fun _ _ => False) s ↔
      if (i2cStart T s.toI2c).1 = true then
        SendThen T (fun ok b => Q ok { s with toI2c := b }) frame (i2cStart T s.toI2c).2
      else Q false { s with toI2c := i2cStop T (i2cStart T s.toI2c).2 }) :
    m s = .ok (sendFrame T frame s.toI2c).1 { s with toI2c := (sendFrame T frame s.toI2c).2 } := by
  let r := sendFrame T frame s.toI2c
  have hpost := (sendFrame_iff (Q := fun ok b =>
    ok = r.1 ∧ { s with toI2c := b } = { s with toI2c := r.2 }) frame s.toI2c).mp ⟨rfl, rfl⟩
  obtain ⟨ok, s', hrun, rfl, rfl⟩ :=
    exists_run_of_wp ((h fun ok s' => ok = r.1 ∧ s' = { s with toI2c := r.2 }).mpr hpost)
  exact hrun

theorem writeByte_run (s : Fx2) :
    let r := sendFrame T
      (WriteKind.writeByte.frame s.pecEnabled ⟨smbAddr, smbCmd⟩ (s.ep0buf.read 0 1)) s.toI2c
    writeByte T smbAddr smbCmd s = .ok r.1 { s with toI2c := r.2 } := by
  refine run_of_wp_frame fun Q => ?_
  simp only [writeByte, stopFail, wp_labels, wp_bind, wp_orGoto, wp_i2c, wp_i2cDo, wp_get,
    wp_ep0buf, wp_ite, wp_pure, ep0_in_bounds 0 (by decide)]
  by_cases hon : s.pecEnabled = true
  · rw [frame_of_on WriteKind.noConfusion _ _ hon]
    simp only [if_pos hon]
    rfl
  · rw [frame_of_off _ _ _ hon]
    simp only [if_neg hon]
    rfl

theorem writeWord_run (s : Fx2) :
    let r := sendFrame T
      (WriteKind.writeWord.frame s.pecEnabled ⟨smbAddr, smbCmd⟩ (s.ep0buf.read 0 2)) s.toI2c
    writeWord T smbAddr smbCmd s = .ok r.1 { s with toI2c := r.2 } := by
  refine run_of_wp_frame fun Q => ?_
  simp only [writeWord, stopFail, wp_labels, wp_bind, wp_orGoto, wp_i2c, wp_i2cDo, wp_get,
    wp_ep0buf, wp_ite, wp_pure, ep0_in_bounds 0 (by decide), ep0_in_bounds 1 (by decide)]
  by_cases hon : s.pecEnabled = true
  · rw [frame_of_on WriteKind.noConfusion _ _ hon]
    simp only [if_pos hon]
    rfl
  · rw [frame_of_off _ _ _ hon]
    simp only [if_neg hon]
    rfl

variable (smbAddr smbCmd) in
/-- `SEND_BYTE` sets no STOP when its START fails. -/
theorem sendByte_run {b : I2c} (hstart : i2cStart T s.toI2c = (true, b)) :
    let r := sendFrame T (WriteKind.sendByte.frame s.pecEnabled ⟨smbAddr, smbCmd⟩ []) s.toI2c
    ∃ n, sendByte T smbAddr smbCmd s = .ok r.1 { s with toI2c := r.2, ep0bcl := n } := by
  intro r
  have hframe : WriteKind.sendByte.frame s.pecEnabled ⟨smbAddr, smbCmd⟩ [] =
      [toByte smbAddr, toByte smbCmd] := by
    rw [WriteKind.frame, if_neg fun h => h.2 rfl]
    rfl
  have hr : r = ((sendAll T [toByte smbAddr, toByte smbCmd] b).1,
      i2cStop T (sendAll T [toByte smbAddr, toByte smbCmd] b).2) := by
    rw [← sendFrame_of_start hstart, ← hframe]
  have h : wp (sendByte T smbAddr smbCmd) (fun ok s' => ok = r.1 ∧
      ∃ n, s' = { s with toI2c := r.2, ep0bcl := n }) (fun _ _ => False) s := by
    have hsend := (sendThen_iff (Q := fun ok b' => ok = r.1 ∧ b' = r.2)
      [toByte smbAddr, toByte smbCmd] b).mpr (by rw [hr]; exact ⟨rfl, rfl⟩)
    simp only [SendThen] at hsend
    simp only [sendByte, wp_bind, wp_i2c, wp_i2cDo, wp_setEp0bcl, wp_ite, wp_pure, hstart, if_true]
    split at hsend
    · next haddr =>
      rw [if_pos haddr]
      split at hsend
      · next hcmd =>
        rw [if_pos hcmd]
        exact ⟨hsend.1, 0, by rw [hsend.2]⟩
      · next hcmd =>
        rw [if_neg hcmd]
        exact ⟨hsend.1, s.ep0bcl, by rw [hsend.2]⟩
    · next haddr =>
      rw [if_neg haddr]
      exact ⟨hsend.1, s.ep0bcl, by rw [hsend.2]⟩
  obtain ⟨ok, s', hrun, rfl, n, rfl⟩ := exists_run_of_wp h
  exact ⟨n, hrun⟩

/-- Every write request sends its frame. -/
theorem writeKind_run {fuel : Nat} (hfuel : 256 ≤ fuel) (kind : WriteKind) (setup : Setup)
    {data : List Byte} (hwrites : s.Writes data kind) {b : I2c}
    (hstart : i2cStart T s.toI2c = (true, b)) :
    ∃ s', handleVendorcommand T fuel kind.code setup s =
        .ok (sendFrame T (kind.frame s.pecEnabled setup data) s.toI2c).1 s' ∧
      s'.toI2c = (sendFrame T (kind.frame s.pecEnabled setup data) s.toI2c).2 := by
  have htemp : tempSize = 192 := rfl
  cases kind with
  | sendByte =>
      obtain rfl : data = [] := hwrites
      obtain ⟨n, hrun⟩ := sendByte_run setup.value setup.index hstart
      exact ⟨_, hrun, rfl⟩
  | writeByte =>
      obtain rfl : data = s.ep0buf.read 0 1 := hwrites
      exact ⟨_, writeByte_run s, rfl⟩
  | writeWord =>
      obtain rfl : data = s.ep0buf.read 0 2 := hwrites
      exact ⟨_, writeWord_run s, rfl⟩
  | block =>
      obtain ⟨hidle, hshort, hcount, hdata⟩ := hwrites
      obtain ⟨o, -, -, hrun⟩ := writeBlock_sends T fuel setup.value setup.index hfuel s hidle
        (by omega)
      have hbyte : s.ep0buf 0 = BitVec.ofNat 8 data.length := by
        rw [← hcount, BitVec.ofNat_toNat, BitVec.setWidth_eq]
      rw [hcount, ← hdata, hbyte] at hrun
      rw [frame_eq_blockFrame .block WriteKind.noConfusion _ setup rfl]
      exact ⟨_, hrun, rfl⟩
  | sequence =>
      obtain ⟨hlive, hlow, hhigh, k, hbuf, hptr, hlast, hdata⟩ := hwrites
      have hlen := hbuf.len
      have hk := hbuf.ptr
      have hrun := writeBlock_completes T fuel setup.value setup.index hfuel s hlive (by omega)
        (by omega) (by omega)
      have hbyte : toByte s.templen = BitVec.ofNat 8 data.length := by
        rw [← hlen]
        exact BitVec.eq_of_toNat_eq (by simp [toByte])
      simp only [hlen, hk, hbuf.temp, hdata, List.take_append_drop, hbyte] at hrun
      rw [frame_eq_blockFrame .sequence WriteKind.noConfusion _ setup rfl]
      refine ⟨_, hrun, ?_⟩
      split <;> rfl

/-! ## Sequences -/

variable (T smbAddr smbCmd) in
/-- The request that brings the count and the first 63 bytes. -/
theorem buffers_open {fuel : Nat} (hfuel : 256 ≤ fuel) {data : List Byte}
    (hidle : s.expire.templen = 0) (hcount : (s.ep0buf 0).toNat = data.length)
    (hlong : 64 < data.length) (hchunk : s.ep0buf.read 1 63 = data.take 63) :
    ∃ s', writeBlock T fuel smbAddr smbCmd s = .ok true s' ∧ s'.Buffers data 63 ∧ s'.count = 0 := by
  refine ⟨_, writeBlock_opens T fuel smbAddr smbCmd hfuel s hidle (by omega), ⟨?_, rfl, ?_⟩, rfl⟩
  · have := (s.ep0buf 0).isLt
    simp only [BitVec.toNat_setWidth]
    omega
  · have hread := Mem.read_write s.temp 0 (s.ep0buf.read 1 63)
    rw [Mem.length_read] at hread
    exact hread.trans hchunk

variable (T smbAddr smbCmd) in
/-- A request that brings 64 bytes more, and not the last. -/
theorem buffers_store {fuel : Nat} (hfuel : 256 ≤ fuel) {data : List Byte} {k : Nat}
    (hbuf : s.Buffers data k) (hlive : s.count ≤ blockSeqTimeout) (hlen : data.length ≤ tempSize)
    (hmore : k + 64 < data.length) (hchunk : s.ep0buf.read 0 64 = (data.drop k).take 64) :
    ∃ s', writeBlock T fuel smbAddr smbCmd s = .ok true s' ∧ s'.Buffers data (k + 64) ∧
      s'.count = s.count := by
  have htemp : tempSize = 192 := rfl
  have hlen' := hbuf.len
  have hptr := hbuf.ptr
  refine ⟨_, writeBlock_stores T fuel smbAddr smbCmd hfuel s hlive (by omega) (by omega),
    ⟨hlen', ?_, ?_⟩, rfl⟩
  · simp only [BitVec.toNat_ofNat, hptr]
    omega
  · have hread := Mem.read_write s.temp k (s.ep0buf.read 0 64)
    rw [Mem.length_read] at hread
    simp only [hptr]
    rw [Mem.read_add, Nat.zero_add, hread, Mem.read_write_of_disjoint _ (by simp), hbuf.temp,
      hchunk, List.take_add]

end

/-! ## Frames under any target -/

/-- Every write request whose START succeeded puts its frame on the bus up to the first byte that
is not ACKed, and STOP behind it, and says whether the whole frame was ACKed. -/
theorem write_frames (T : Target) {fuel : Nat} (hfuel : 256 ≤ fuel) (kind : WriteKind)
    (setup : Setup) {data : List Byte} {s : Fx2} (hwrites : s.Writes data kind) {b : I2c}
    (hstart : i2cStart T s.toI2c = (true, b)) :
    ∃ ok s' ext, handleVendorcommand T fuel kind.code setup s = .ok ok s' ∧
      Extends b ext s'.toI2c ∧ FrameSent (kind.frame s.pecEnabled setup data) ok ext := by
  obtain ⟨s', hrun, hi2c⟩ := writeKind_run hfuel kind setup hwrites hstart
  obtain ⟨ext, hext, hsent⟩ :=
    sendFrame_sent (T := T) (kind.frame s.pecEnabled setup data) hstart
  exact ⟨_, s', ext, hrun, by rwa [hi2c], hsent⟩

/-- A target that ACKs the address, and nothing behind it. -/
def Target.refusesSecond : Target :=
  { Target.answers [] with out := fun tr _ => (0, if sentBytes tr = [] then .ack else .nack) }

/-- A word whose command is not ACKed. -/
theorem write_frames_refused :
    ∃ ok s' ext, handleVendorcommand Target.refusesSecond 256 smbWriteWord ⟨0x16, 8⟩ Fx2.init =
        .ok ok s' ∧ Extends (Fx2.init.toI2c.log (.start false)) ext s'.toI2c ∧
      FrameSent [0x16, 8, 0, 0, crc8 [0x16, 8, 0, 0]] ok ext :=
  write_frames Target.refusesSecond (Nat.le_refl 256) .writeWord ⟨0x16, 8⟩ rfl rfl

end Smbusb
