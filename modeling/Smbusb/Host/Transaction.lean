import Smbusb.Firmware.Transaction
import Smbusb.Host.Fx2lp

/-!
# Arbitrary writes from end to end

The host cuts the bytes of an arbitrary write into requests of up to 64 bytes.  The
conditions go with the first request and the end with the last one.

`write_usb` says that the requests together are one `Tx.write` of all the bytes,
whatever the target does, when the requests are delivered.  So where a string is cut
does not matter, neither by the driver nor by a caller that writes it in two calls
(`write_homomorphic`).
-/

namespace Smbusb

open Logic Prog Fw Fx2lp

/-! ## Flags -/

/-- The flags of a `WRITE` request. -/
def writeFlags (start restart stop : Bool) : Byte :=
  (if start then writeCmdStartFirst else 0) ||| (if restart then writeCmdRestartFirst else 0) |||
    if stop then writeCmdStopAfter else 0

theorem hasFlag_writeFlags (start restart stop : Bool) :
    hasFlag (writeFlags start restart stop) writeCmdStartFirst = start ∧
      hasFlag (writeFlags start restart stop) writeCmdRestartFirst = restart ∧
      hasFlag (writeFlags start restart stop) writeCmdStopAfter = stop := by
  cases start <;> cases restart <;> cases stop <;> decide

/-- The driver adds the flag of the end. -/
theorem writeFlags_stop (start restart : Bool) (c : Prop) [Decidable c] :
    (if c then writeFlags start restart false ||| writeCmdStopAfter
      else writeFlags start restart false) = writeFlags start restart (decide c) := by
  by_cases hc : c
  · simp only [hc, if_true, decide_true]
    cases start <;> cases restart <;> decide
  · simp only [hc, if_false, decide_false]

/-- The driver drops the flags of the conditions. -/
theorem writeFlags_clear (start restart stop : Bool) :
    writeFlags start restart stop &&& ~~~writeCmdStartFirst &&& ~~~writeCmdRestartFirst =
      writeFlags false false stop := by
  cases start <;> cases restart <;> cases stop <;> decide

/-! ## Requests -/

/-- The firmware after a transaction, as far as the next one depends on it. -/
structure Tx.After (r : Tx) (s s' : Fx2) : Prop where
  trace : s'.trace = r.trace
  pec : s'.mrqPec = r.pec
  pecEnabled : s'.pecEnabled = s.pecEnabled
  lastrdBit : s'.lastrdBit = s.lastrdBit
  oob : s'.oob = s.oob

theorem Tx.After.trans {r : Tx} {f : Byte → List Event → Tx} {s s' s'' : Fx2} (h : r.After s s')
    (hok : r.ok = true) (h' : (f s'.mrqPec s'.trace).After s' s'') : (r.andThen f).After s s'' := by
  rw [h.pec, h.trace] at h'
  rw [Tx.andThen, if_pos hok]
  exact ⟨h'.trace, h'.pec, h'.pecEnabled.trans h.pecEnabled, h'.lastrdBit.trans h.lastrdBit,
    h'.oob.trans h.oob⟩

section

variable {T : Target} {way : Nat → Delivery} {l : Link}

/-- A write to the firmware, as a transaction. -/
def Fx2.txWrite (T : Target) (s : Fx2) (start restart stop : Bool) (data : List Byte) : Tx :=
  Tx.write T s.pecEnabled start restart stop data s.mrqPec s.trace

variable (T) in
/-- One request. -/
theorem out_write (hdel : (way l.sent).fate = .delivered) (start restart stop : Bool)
    {c : List Byte} (hc : c.length ≤ 64) :
    let r := l.fx2.txWrite T start restart stop c
    ∃ l' : Link, r.After l.fx2 l'.fx2 ∧ (usb T way).out smbWrite
      ⟨BitVec.ofNat 16 c.length, (writeFlags start restart stop).setWidth 16⟩ c l =
        (if r.ok then (c.length : Int) else libusbErrorPipe, l') := by
  intro r
  have hn : (BitVec.ofNat 16 c.length).toNat = c.length := by simp; omega
  have hflags : toByte ((writeFlags start restart stop).setWidth 16) =
      writeFlags start restart stop := by
    simp [toByte]
  obtain ⟨b, hrun, htrace, hbit⟩ := write_run T loopFuel (BitVec.ofNat 16 c.length)
    ((writeFlags start restart stop).setWidth 16) (by decide) (by rw [hn]; exact hc)
    ((l.fx2.tick (way l.sent).gap).load c)
  obtain ⟨h1, h2, h3⟩ := hasFlag_writeFlags start restart stop
  have hread : ((l.fx2.tick (way l.sent).gap).load c).ep0buf.read 0 c.length = c :=
    Mem.read_write l.fx2.ep0buf 0 c
  simp only [hflags, h1, h2, h3, hn, hread] at hrun htrace
  have hr : Tx.write T ((l.fx2.tick (way l.sent).gap).load c).pecEnabled start restart stop c
      ((l.fx2.tick (way l.sent).gap).load c).mrqPec ((l.fx2.tick (way l.sent).gap).load c).trace =
      r := rfl
  rw [hr] at hrun htrace
  have hserve : serve T smbWrite ⟨BitVec.ofNat 16 c.length,
      (writeFlags start restart stop).setWidth 16⟩ ((l.fx2.tick (way l.sent).gap).load c) =
      (r.ok, { (l.fx2.tick (way l.sent).gap).load c with toI2c := b, mrqPec := r.pec }) :=
    serve_of_run smbWrite hrun
  refine ⟨⟨{ (l.fx2.tick (way l.sent).gap).load c with toI2c := b, mrqPec := r.pec }, l.sent + 1⟩,
    ⟨htrace, rfl, rfl, hbit, rfl⟩, ?_⟩
  simp only [usb, hdel, hserve]

variable (T) in
/-- One turn of the driver's loop, with the flag of the end when it is the last. -/
theorem writeWhole_turn (data : List Byte) (stop : Byte) (remainder : Nat)
    (hdel : (way l.sent).fate = .delivered) {wholeWrites i : Nat}
    (hlen : (i + 1) * 64 ≤ data.length) (left : Nat) (start restart : Bool) {last : Bool}
    (hlast : decide (i + 1 = wholeWrites ∧ remainder = 0 ∧ stop ≠ 0) = last) (status : Int) :
    let r := l.fx2.txWrite T start restart last ((data.drop (i * 64)).take 64)
    ∃ l' : Link, r.After l.fx2 l'.fx2 ∧
      writeWhole (usb T way) stop data wholeWrites remainder (left + 1) i
        (writeFlags start restart false) status l =
      if r.ok then writeWhole (usb T way) stop data wholeWrites remainder left (i + 1)
        (writeFlags false false last) 64 l'
      else (.error libusbErrorPipe, l') := by
  intro r
  have hchunk : ((data.drop (i * 64)).take 64).length = 64 := by
    rw [List.length_take, List.length_drop]
    omega
  obtain ⟨l', hafter, hout⟩ := out_write (l := l) T hdel start restart last (Nat.le_of_eq hchunk)
  refine ⟨l', hafter, ?_⟩
  rw [hchunk] at hout
  change (usb T way).out smbWrite ⟨64, _⟩ _ l = (if r.ok then 64 else libusbErrorPipe, l') at hout
  rw [writeWhole]
  simp only [writeFlags_stop, writeFlags_clear, hlast, hout]
  cases r.ok with
  | true => rfl
  | false => rfl

/-- The whole chunks of the driver's loop, from chunk `i` on. -/
theorem writeWhole_usb (hdel : ∀ k, (way k).fate = .delivered) {data : List Byte}
    (stop : Byte) (remainder : Nat) {wholeWrites : Nat} (hlen : wholeWrites * 64 ≤ data.length)
    {left i : Nat} (hleft : i + left + 1 = wholeWrites) (start restart : Bool) {last : Bool}
    (hlast : decide (remainder = 0 ∧ stop ≠ 0) = last) (status : Int) :
    let r := l.fx2.txWrite T start restart last ((data.drop (i * 64)).take ((left + 1) * 64))
    ∃ l' : Link, r.After l.fx2 l'.fx2 ∧
      writeWhole (usb T way) stop data wholeWrites remainder (left + 1) i
        (writeFlags start restart false) status l =
      (if r.ok then .ok (writeFlags false false last, 64) else .error libusbErrorPipe, l') := by
  induction left generalizing i start restart status l with
  | zero =>
    have hend : i + 1 = wholeWrites := by omega
    obtain ⟨l', hafter, hrun⟩ := writeWhole_turn T data stop remainder (hdel l.sent)
      (by omega) 0 start restart
      (show decide (i + 1 = wholeWrites ∧ _) = last by simpa [hend] using hlast) status
    refine ⟨l', hafter, ?_⟩
    rw [hrun]
    split <;> rfl
  | succ left ih =>
    obtain ⟨l₁, hafter, hrun⟩ := writeWhole_turn T data stop remainder (hdel l.sent)
      (by omega) (left + 1) start restart
      (show decide (i + 1 = wholeWrites ∧ _) = false by simp; omega) status
    have hsplit : (data.drop (i * 64)).take ((left + 1 + 1) * 64) =
        (data.drop (i * 64)).take 64 ++ (data.drop ((i + 1) * 64)).take ((left + 1) * 64) := by
      rw [show (left + 1 + 1) * 64 = 64 + (left + 1) * 64 by omega, List.take_add, List.drop_drop,
        show i * 64 + 64 = (i + 1) * 64 by omega]
    generalize hr₁ : l.fx2.txWrite T start restart false ((data.drop (i * 64)).take 64) = r₁
      at hafter hrun
    intro r
    have hr : r = r₁.andThen (Tx.write T l.fx2.pecEnabled false false last
        ((data.drop ((i + 1) * 64)).take ((left + 1) * 64))) := by
      rw [← hr₁]
      simp only [r, Fx2.txWrite, hsplit, Tx.write_append]
    rw [hr, hrun]
    cases hok : r₁.ok with
    | false => 
      refine ⟨l₁, ?_, ?_⟩
      · rwa [Tx.andThen_of_fail hok]
      · rw [Tx.andThen_of_fail hok, hok]
        rfl
    | true =>
      obtain ⟨l', hafter', hrun'⟩ := ih (l := l₁) (i := i + 1) (by omega) false false 64
      rw [Fx2.txWrite, hafter.pecEnabled] at hafter' hrun'
      refine ⟨l', hafter.trans hok hafter', ?_⟩
      rw [if_pos rfl, hrun', Tx.andThen, if_pos hok, hafter.pec, hafter.trace]

/-- The driver's result: the whole length, when the last status is positive. -/
theorem status_of_ok (ok : Bool) {n : Nat} (hn : 0 < n) (m : Int) :
    (if 0 < (if ok then (n : Int) else libusbErrorPipe) then m
      else if ok then (n : Int) else libusbErrorPipe) = if ok then m else libusbErrorPipe := by
  cases ok with
  | true => exact if_pos (Int.natCast_pos.mpr hn)
  | false => rfl

/-- An arbitrary write is one transaction of all its bytes. -/
theorem write_usb (hdel : ∀ k, (way k).fate = .delivered) {data : List Byte} (hne : data ≠ [])
    (start restart stop : Byte) (status : Int) :
    let r := l.fx2.txWrite T (decide (start ≠ 0)) (decide (restart ≠ 0)) (decide (stop ≠ 0)) data
    ∃ l' : Link, r.After l.fx2 l'.fx2 ∧
      Fx2lp.write (usb T way) status start restart stop data l =
        (if r.ok then (data.length : Int) else libusbErrorPipe, l') := by
  have hpos : 0 < data.length := List.length_pos_iff.mpr hne
  have hflags : (let rs : Byte := 0
      let rs := if start ≠ 0 then rs ||| writeCmdStartFirst else rs
      if restart ≠ 0 then rs ||| writeCmdRestartFirst else rs) =
      writeFlags (decide (start ≠ 0)) (decide (restart ≠ 0)) false := by
    simp only [writeFlags, decide_eq_true_eq, Bool.false_eq_true, if_false]
    split_ifs <;> rfl
  dsimp only at hflags
  simp only [Fx2lp.write, hflags]
  generalize decide (start ≠ 0) = start
  generalize decide (restart ≠ 0) = restart
  generalize hw : data.length / 64 = wholeWrites
  have hmul : wholeWrites * 64 ≤ data.length := by omega
  generalize hrem : data.length - wholeWrites * 64 = remainder
  have hlast : ((data.drop (wholeWrites * 64)).take remainder) = data.drop (wholeWrites * 64) :=
    List.take_of_length_le (by rw [List.length_drop]; omega)
  have hlen : (data.drop (wholeWrites * 64)).length = remainder := by rw [List.length_drop, hrem]
  rw [hlast]
  have hdrop : data.take (wholeWrites * 64) ++ data.drop (wholeWrites * 64) = data :=
    List.take_append_drop ..
  cases wholeWrites with
  | zero =>
    rw [Nat.zero_mul, List.drop_zero] at hlen ⊢
    obtain ⟨l', hafter, hout⟩ := out_write (l := l) T (hdel l.sent) start restart
      (decide (stop ≠ 0)) (show data.length ≤ 64 by omega)
    rw [hlen] at hout
    refine ⟨l', hafter, ?_⟩
    have hpos' : 0 < remainder := by omega
    simp only [writeWhole, hpos', if_true, writeFlags_stop, hout, status_of_ok]
  | succ left =>
    obtain ⟨l₁, hafter, hrun⟩ := writeWhole_usb (T := T) (l := l) hdel stop remainder hmul (i := 0)
      (show 0 + left + 1 = left + 1 by omega) start restart rfl status
    rw [Nat.zero_mul, List.drop_zero] at hafter hrun
    rw [hrun]
    generalize hr₁ : l.fx2.txWrite T start restart (decide (remainder = 0 ∧ stop ≠ 0))
      (data.take ((left + 1) * 64)) = r₁ at hafter
    rcases Nat.eq_zero_or_pos remainder with hzero | hpos'
    · have hall : data.take ((left + 1) * 64) = data := List.take_of_length_le (by omega)
      simp only [hzero, true_and, hall] at hr₁
      rw [hr₁]
      refine ⟨l₁, hafter, ?_⟩
      simp only [hzero, Nat.lt_irrefl, if_false]
      cases r₁.ok <;> rfl
    · have hmore : decide (remainder = 0 ∧ stop ≠ 0) = false := by
        simp
        omega
      simp only [hmore] at hr₁ ⊢
      have hr : l.fx2.txWrite T start restart (decide (stop ≠ 0)) data = r₁.andThen
          (Tx.write T l.fx2.pecEnabled false false (decide (stop ≠ 0))
            (data.drop ((left + 1) * 64))) := by
        have h := Tx.write_append T l.fx2.pecEnabled start restart (decide (stop ≠ 0))
          (data.take ((left + 1) * 64)) (data.drop ((left + 1) * 64)) l.fx2.mrqPec l.fx2.trace
        rw [hdrop] at h
        rw [← hr₁]
        exact h
      rw [hr]
      cases hok : r₁.ok with
      | false =>
        rw [Tx.andThen_of_fail hok, hok]
        exact ⟨l₁, hafter, rfl⟩
      | true =>
        obtain ⟨l', hafter', hout⟩ := out_write (l := l₁) T (hdel l₁.sent) false false
          (decide (stop ≠ 0)) (show (data.drop ((left + 1) * 64)).length ≤ 64 by omega)
        rw [hlen] at hout
        rw [Fx2.txWrite, hafter.pecEnabled] at hafter' hout
        refine ⟨l', hafter.trans hok hafter', ?_⟩
        simp only [if_true, hpos', writeFlags_stop, hout, status_of_ok]
        rw [Tx.andThen, if_pos hok, hafter.pec, hafter.trace]

end

/-! ## Two calls -/

/-- The result of two writes in a row: the second is made when the first succeeded. -/
def writeTwice (d : Device Link) (u v : Int) (start restart stop : Byte) (a b : List Byte)
    (l : Link) : Int × Link :=
  let first := Fx2lp.write d u start restart 0 a l
  if 0 < first.1 then Fx2lp.write d v 0 0 stop b first.2 else first

/-- Writing two strings in two calls is writing them in one, for every target: the same
bus, the same PEC, and both succeed or none.  What the bus shows is a write of the shape
`WriteShape`. -/
theorem write_homomorphic (T : Target) {way way' : Nat → Delivery}
    (hdel : ∀ k, (way k).fate = .delivered) (hdel' : ∀ k, (way' k).fate = .delivered)
    {a b : List Byte} (ha : a ≠ []) (hb : b ≠ []) (start restart stop : Byte) (u v w : Int)
    (s : Fx2) :
    let twice := writeTwice (usb T way) u v start restart stop a b ⟨s, 0⟩
    let once := Fx2lp.write (usb T way') w start restart stop (a ++ b) ⟨s, 0⟩
    twice.2.fx2.trace = once.2.fx2.trace ∧ twice.2.fx2.mrqPec = once.2.fx2.mrqPec ∧
      (0 < twice.1 ↔ 0 < once.1) ∧
      ∃ ext, once.2.fx2.trace = s.trace ++ ext ∧
        WriteShape s.pecEnabled (decide (start ≠ 0)) (decide (restart ≠ 0)) (decide (stop ≠ 0))
          (a ++ b) (if decide (start ≠ 0) && s.pecEnabled then 0 else s.mrqPec)
          (decide (0 < once.1)) once.2.fx2.mrqPec ext := by
  intro twice once
  have hpos : ∀ (ok : Bool) {c : List Byte}, c ≠ [] →
      (0 < (if ok then (c.length : Int) else libusbErrorPipe) ↔ ok = true) := by
    intro ok c hc
    cases ok with
    | true => simpa using List.length_pos_iff.mpr hc
    | false => simp [libusbErrorPipe]
  obtain ⟨l, hafter, honce⟩ := write_usb (T := T) (l := ⟨s, 0⟩) hdel'
    (show a ++ b ≠ [] by simp [ha]) start restart stop w
  generalize hr : s.txWrite T (decide (start ≠ 0)) (decide (restart ≠ 0)) (decide (stop ≠ 0))
    (a ++ b) = r at hafter honce
  have htwice : ∃ l₂ status, twice = (status, l₂) ∧ r.After s l₂.fx2 ∧
      (0 < status ↔ r.ok = true) := by
    obtain ⟨l₁, hafter₁, hfirst⟩ := write_usb (T := T) (l := ⟨s, 0⟩) hdel ha start restart 0 u
    generalize hr₁ : s.txWrite T (decide (start ≠ 0)) (decide (restart ≠ 0))
      (decide ((0 : Byte) ≠ 0))
      a = r₁ at hafter₁ hfirst
    have hsplit : r = r₁.andThen (Tx.write T s.pecEnabled false false (decide (stop ≠ 0)) b) := by
      rw [← hr, ← hr₁]
      exact Tx.write_append ..
    simp only [twice, writeTwice, hfirst]
    cases hok : r₁.ok with
    | false =>
      rw [if_neg (by simp [libusbErrorPipe]), hsplit, Tx.andThen_of_fail hok, hok]
      exact ⟨l₁, libusbErrorPipe, rfl, hafter₁, by simp [libusbErrorPipe]⟩
    | true =>
      obtain ⟨l₂, hafter₂, hsecond⟩ := write_usb (T := T) (l := l₁) hdel hb 0 0 stop v
      rw [if_pos ((hpos true ha).mpr rfl), hsecond, hsplit]
      simp only [ne_eq, not_true_eq_false, decide_false] at hafter₂ ⊢
      rw [Fx2.txWrite, hafter₁.pecEnabled] at hafter₂ ⊢
      refine ⟨l₂, _, rfl, hafter₁.trans hok hafter₂, ?_⟩
      rw [hpos _ hb, Tx.andThen, if_pos hok, hafter₁.pec, hafter₁.trace]
  obtain ⟨l₂, status, htwice, hafter₂, hok⟩ := htwice
  have honce : once = _ := honce
  rw [htwice, honce]
  refine ⟨hafter₂.trace.trans hafter.trace.symm, hafter₂.pec.trans hafter.pec.symm, ?_, ?_⟩
  · rw [hok, hpos _ (by simp [ha])]
  · obtain ⟨ext, htrace, hshape⟩ := Tx.write_shape T s.pecEnabled (decide (start ≠ 0))
      (decide (restart ≠ 0)) (decide (stop ≠ 0)) (a ++ b) s.mrqPec s.trace
    rw [show Tx.write T _ _ _ _ _ _ _ = r from hr] at htrace hshape
    refine ⟨ext, hafter.trace.trans htrace, ?_⟩
    simp only [hpos _ (show a ++ b ≠ [] by simp [ha]), Bool.decide_eq_true, hafter.pec]
    exact hshape

theorem write_homomorphic_three :
    let twice := writeTwice (usb (.answers []) (Delivery.all 0)) 0 0 1 0 1 [0x16] [0x20, 7]
      ⟨Fx2.init, 0⟩
    let once := Fx2lp.write (usb (.answers []) (Delivery.all 0)) 0 1 0 1 [0x16, 0x20, 7]
      ⟨Fx2.init, 0⟩
    twice.2.fx2.trace = once.2.fx2.trace ∧ twice.2.fx2.mrqPec = once.2.fx2.mrqPec ∧
      (0 < twice.1 ↔ 0 < once.1) ∧
      ∃ ext, once.2.fx2.trace = Fx2.init.trace ++ ext ∧
        WriteShape Fx2.init.pecEnabled true false true [0x16, 0x20, 7] Fx2.init.mrqPec
          (decide (0 < once.1)) once.2.fx2.mrqPec ext := by
  have h := write_homomorphic (.answers []) (Delivery.all_delivered 0) (Delivery.all_delivered 0)
    (a := [0x16]) (b := [0x20, 7]) (by simp) (by simp) 1 0 1 0 0 0 Fx2.init
  obtain ⟨ext, htrace, hshape⟩ := h.2.2.2
  exact ⟨h.1, h.2.1, h.2.2.1, ext, htrace, hshape⟩

end Smbusb
