import Smbusb.Host.TransactionRead

/-!
# The PEC of an arbitrary transaction

A transaction is written in pieces and read at its end.  The firmware keeps its PEC
across all the requests, from the START on, and keeps the PEC byte it received apart.
`SMBGetArbPEC` fetches both.

The two bytes are right for every transaction (`transaction_pecs`).  The driver puts
them into a `short` and returns it as an `unsigned int`, so the word is right when the
sign bit is not set (`arbPec_iff`).
-/

namespace Smbusb

open Logic Prog Fw Fx2lp

/-! ## Bytes on the bus -/

/-- The bytes sent or received, in order. -/
def transferred (tr : List Event) : List Byte :=
  tr.filterMap fun
    | .sent b _ => some b
    | .recv b _ => some b
    | _ => none

@[simp] theorem transferred_append (tr tr' : List Event) :
    transferred (tr ++ tr') = transferred tr ++ transferred tr' := List.filterMap_append

@[simp] theorem transferred_acked (bs : List Byte) : transferred (acked bs) = bs := by
  simp [transferred, acked, List.filterMap_map]

@[simp] theorem transferred_conditions (start restart : Bool) (k : Nat) :
    transferred (conditionEvents start restart k) = [] := by
  cases start <;> cases restart <;> simp [transferred, conditionEvents]

theorem transferred_turns {f : Nat → Byte} {bl l : Nat → Bool} {n : Nat}
    (hl : ∀ i < n, l i = false) :
    transferred (turns f bl l n) = (List.range n).map fun i => f (i + 1) := by
  induction n with
  | zero => rfl
  | succ n ih =>
    rw [turns, transferred_append, ih fun i hi => hl i (by omega), List.range_succ, List.map_append]
    cases bl n <;> simp [turnEvents, askEvents, hl n (by omega), transferred]

/-- With the PEC on, a read transfers its bytes and one more. -/
theorem transferred_readTrace {s : Fx2} (f : Nat → Byte) (len : Nat) (hon : s.pecEnabled = true) :
    ∃ ext, readTrace s f len (readTurns s.pecEnabled true len) = s.trace ++ ext ∧
      transferred ext = Mem.read f 0 len ++ [f len] := by
  have hturns : readTurns s.pecEnabled true len = len + 1 := by simp [readTurns, hon]
  have hl : ∀ i < len, readLast s.pecEnabled len i = false := by
    intro i hi
    rw [readLast, hturns]
    simp
    omega
  have hlast : readLast s.pecEnabled len len = true := by
    rw [readLast, hturns]
    simp
  refine ⟨_, by rw [readTrace, List.append_assoc], ?_⟩
  have hread : Mem.read f 0 len ++ [f len] = f 0 :: (List.range len).map fun i => f (i + 1) := by
    have h := Mem.read_succ f 0 len
    rw [Nat.zero_add] at h
    rw [← h]
    simp [Mem.read, List.range_succ_eq_map]
  rw [hturns, turns, transferred_append, transferred_append,
    transferred_turns hl, hread, turnEvents,
    hlast]
  simp [transferred]

/-! ## Transactions -/

/-- A write inside a transaction: whether it begins with a repeated START, and its bytes. -/
structure Piece where
  restart : Byte
  data : List Byte
  nonempty : data ≠ []

/-- The writes of a transaction behind its first. -/
def writePieces (d : Device Link) (status : Int) : List Piece → Link → Link
  | [], l => l
  | p :: ps, l => writePieces d status ps (Fx2lp.write d status 0 p.restart 0 p.data l).2

/-- A transaction: a write that begins it, more writes, and a read to its end. -/
def transaction (d : Device Link) (status : Int) (first : Piece) (ps : List Piece) (len : Nat)
    (data : Mem Byte) (l : Link) : Int × Mem Byte × Link :=
  Fx2lp.read d status len data 1
    (writePieces d status ps (Fx2lp.write d status 1 first.restart 0 first.data l).2)

section

variable {T : Target} {way : Nat → Delivery} {s : Fx2} {l : Link}

/-- One write of a transaction. -/
theorem write_piece (hA : AcksAll T) (hdel : ∀ k, (way k).fate = .delivered) (status : Int)
    (start : Byte) (p : Piece) :
    ∃ ext, (Fx2lp.write (usb T way) status start p.restart 0 p.data l).2.fx2.trace =
        l.fx2.trace ++ ext ∧ transferred ext = p.data ∧
      (Fx2lp.write (usb T way) status start p.restart 0 p.data l).2.fx2.mrqPec =
        pecOver l.fx2.pecEnabled p.data
          (if decide (start ≠ 0) && l.fx2.pecEnabled then 0 else l.fx2.mrqPec) ∧
      (Fx2lp.write (usb T way) status start p.restart 0 p.data l).2.fx2.pecEnabled =
        l.fx2.pecEnabled := by
  obtain ⟨l', hafter, hwrite⟩ :=
    write_usb (T := T) (l := l) hdel p.nonempty start p.restart 0 status
  have hacks := Tx.write_of_acks hA l.fx2.pecEnabled (decide (start ≠ 0)) (decide (p.restart ≠ 0))
    p.data l.fx2.mrqPec l.fx2.trace
  rw [hwrite]
  have hr : l.fx2.txWrite T (decide (start ≠ 0)) (decide (p.restart ≠ 0)) (decide ((0 : Byte) ≠ 0))
    p.data = _ := hacks
  rw [hr] at hafter
  refine ⟨_, hafter.trace.trans (List.append_assoc ..), by simp, hafter.pec, hafter.pecEnabled⟩

/-- The writes behind the first. -/
theorem writePieces_acks (hA : AcksAll T) (hdel : ∀ k, (way k).fate = .delivered) (status : Int)
    (ps : List Piece) :
    ∃ ext, (writePieces (usb T way) status ps l).fx2.trace = l.fx2.trace ++ ext ∧
      transferred ext = ps.flatMap Piece.data ∧
      (writePieces (usb T way) status ps l).fx2.mrqPec =
        pecOver l.fx2.pecEnabled (ps.flatMap Piece.data) l.fx2.mrqPec ∧
      (writePieces (usb T way) status ps l).fx2.pecEnabled = l.fx2.pecEnabled := by
  induction ps generalizing l with
  | nil => exact ⟨[], by simp [writePieces], rfl, by simp [writePieces, pecOver], rfl⟩
  | cons p ps ih =>
    obtain ⟨ext, htrace, hbytes, hpec, hon⟩ := write_piece (l := l) hA hdel status 0 p
    obtain ⟨ext', htrace', hbytes', hpec', hon'⟩ :=
      ih (l := (Fx2lp.write (usb T way) status 0 p.restart 0 p.data l).2)
    rw [hon] at hpec' hon'
    refine ⟨ext ++ ext', ?_, by simp [hbytes, hbytes'], ?_, hon'⟩
    · rw [writePieces, htrace', htrace, List.append_assoc]
    · rw [writePieces, hpec', hpec, List.flatMap_cons, pecOver_append]
      simp

/-- The two bytes `SMBGetArbPEC` fetches. -/
theorem getMrqPecs_run (s : Fx2) :
    serve T smbGetMrqPecs ⟨2, 0⟩ s = (true, { s with
      ep0buf := Function.update (Function.update s.ep0buf 0 s.mrqPec) 1 s.rcvPec,
        ep0bcl := 2 }) := by
  have hrun : handleVendorcommand T loopFuel smbGetMrqPecs ⟨2, 0⟩ s = Handler.getMrqPecs s := rfl
  have h : wp Handler.getMrqPecs (fun ok s' => ok = true ∧ s' = { s with
      ep0buf := Function.update (Function.update s.ep0buf 0 s.mrqPec) 1 s.rcvPec, ep0bcl := 2 })
      (fun _ _ => False) s := by
    simp only [Handler.getMrqPecs, wp_bind, wp_get, wp_setEp0buf, wp_setEp0bcl, wp_pure]
    simp [ep0Size]
  obtain ⟨ok, s', hok, rfl, rfl⟩ := exists_run_of_wp h
  exact serve_of_run smbGetMrqPecs (hrun.trans hok)

/-- `SMBGetArbPEC` returns the sign extension of the PEC received and the PEC computed. -/
theorem getArbPec_usb (hdel : (way l.sent).fate = .delivered) :
    (Fx2lp.getArbPec (usb T way) l).1 = (l.fx2.rcvPec ++ l.fx2.mrqPec).signExtend 32 := by
  have hserve := getMrqPecs_run (T := T) (l.fx2.tick (way l.sent).gap)
  simp only [Fx2lp.getArbPec, usb, hdel, hserve]
  rfl

/-- With the PEC on, the firmware has the PEC over all bytes of the transaction but the
last, and the last. -/
theorem transaction_pecs (hT : Responsive T) (hA : AcksAll T)
    (hdel : ∀ k, (way k).fate = .delivered) (hon : s.pecEnabled = true) {len : Nat} (hlen : 1 ≤ len)
    (status : Int) (first : Piece) (ps : List Piece) (data : Mem Byte) :
    let r := transaction (usb T way) status first ps len data ⟨s, 0⟩
    ∃ ext p, r.2.2.fx2.trace = s.trace ++ ext ∧
      transferred ext = first.data ++ ps.flatMap Piece.data ++ r.2.1.read 0 len ++ [p] ∧
      r.2.2.fx2.mrqPec = crc8 (first.data ++ ps.flatMap Piece.data ++ r.2.1.read 0 len) ∧
      r.2.2.fx2.rcvPec = p := by
  intro r
  obtain ⟨ext₁, htrace₁, hbytes₁, hpec₁, hon₁⟩ := write_piece (l := ⟨s, 0⟩) hA hdel status 1 first
  generalize hl₁ : (Fx2lp.write (usb T way) status 1 first.restart 0 first.data ⟨s, 0⟩).2 = l₁
    at htrace₁ hpec₁ hon₁
  obtain ⟨ext₂, htrace₂, hbytes₂, hpec₂, hon₂⟩ := writePieces_acks (l := l₁) hA hdel status ps
  generalize hl₂ : writePieces (usb T way) status ps l₁ = l₂ at htrace₂ hpec₂ hon₂
  have hon₁ : l₁.fx2.pecEnabled = true := hon₁.trans hon
  have hon₂ : l₂.fx2.pecEnabled = true := hon₂.trans hon₁
  obtain ⟨f, hs⟩ := exists_sends T l₂.fx2 len
  obtain ⟨l', status', hended, hread⟩ := read_usb hT hs hdel hlen (.inl hon₂)
    (show (1 : Byte) ≠ 0 by decide) status data
  obtain ⟨ext₃, htrace₃, hbytes₃⟩ := transferred_readTrace f len hon₂
  have hr : r = (status', data.write 0 (Mem.read f 0 len), l') := by
    simp only [r, transaction, hl₁, hl₂, hread]
  have hdata : (data.write 0 (Mem.read f 0 len)).read 0 len = Mem.read f 0 len := by
    have h := Mem.read_write data 0 (Mem.read f 0 len)
    rwa [Mem.length_read] at h
  rw [hr]
  refine ⟨ext₁ ++ ext₂ ++ ext₃, f len, ?_, ?_, ?_, hended.rcvPec hon₂⟩
  · simp only [hended.trace, htrace₃, htrace₂, htrace₁, List.append_assoc]
  · simp [hbytes₁, hbytes₂, hbytes₃, hdata]
  · have hfirst : l₁.fx2.mrqPec = crc8 first.data := by
      rw [hpec₁, hon]
      rfl
    simp only [hended.pec, hpec₂, hfirst, hon₁, hon₂, hdata, pecOver, if_true, crc8,
      List.foldl_append]

/-- The sign extension of two bytes is the word made of them exactly when the first is
below `0x80`. -/
theorem toNat_signExtend_append (p c : Byte) :
    ((p ++ c).signExtend 32).toNat = p.toNat * 256 + c.toNat ↔ p < 0x80 := by
  have hp := p.isLt
  have hc := c.isLt
  have hword : (p ++ c).toNat = p.toNat * 256 + c.toNat := by
    rw [BitVec.toNat_append, Nat.shiftLeft_eq, ← Nat.shiftLeft_eq,
      ← Nat.shiftLeft_add_eq_or_of_lt hc, Nat.shiftLeft_eq]
  have hmsb : (p ++ c).msb = decide (0x80 ≤ p.toNat) := by
    rw [BitVec.msb_append, if_neg (by decide), BitVec.msb_eq_decide]
  have hlt : p < 0x80 ↔ ¬ 0x80 ≤ p.toNat := by
    rw [BitVec.lt_def, Nat.not_le]
    rfl
  rw [hlt]
  by_cases h : 0x80 ≤ p.toNat
  · refine iff_of_false (fun heq => ?_) (not_not.mpr h)
    have hsign : ((p ++ c).signExtend 32).msb = true := by
      rw [BitVec.msb_signExtend]
      simp [hmsb, h]
    rw [BitVec.msb_eq_decide, decide_eq_true_eq, heq] at hsign
    omega
  · refine iff_of_true ?_ h
    rw [BitVec.signExtend_eq_setWidth_of_msb_false (by rw [hmsb]; simpa using h),
      BitVec.toNat_setWidth, hword]
    omega

/-- With the PEC on and a target that ACKs and sends everything, the word returned by
`SMBGetArbPEC` behind a transaction is right exactly when the PEC byte received is below
`0x80`. -/
theorem arbPec_iff (hT : Responsive T) (hA : AcksAll T)
    (hdel : ∀ k, (way k).fate = .delivered) (hon : s.pecEnabled = true) {len : Nat} (hlen : 1 ≤ len)
    (status : Int) (first : Piece) (ps : List Piece) (data : Mem Byte) :
    let r := transaction (usb T way) status first ps len data ⟨s, 0⟩
    ∃ ext bytes p, r.2.2.fx2.trace = s.trace ++ ext ∧ transferred ext = bytes ++ [p] ∧
      bytes = first.data ++ ps.flatMap Piece.data ++ r.2.1.read 0 len ∧
      ((Fx2lp.getArbPec (usb T way) r.2.2).1.toNat = p.toNat * 256 + (crc8 bytes).toNat ↔
        p < 0x80) := by
  intro r
  obtain ⟨ext, p, htrace, hbytes, hmrq, hrcv⟩ :=
    transaction_pecs hT hA hdel hon hlen status first ps data
  refine ⟨ext, _, p, htrace, hbytes, rfl, ?_⟩
  rw [getArbPec_usb (hdel _), ← toNat_signExtend_append]
  have hmrq : r.2.2.fx2.mrqPec = _ := hmrq
  have hrcv : r.2.2.fx2.rcvPec = p := hrcv
  rw [hmrq, hrcv]

end

theorem arbPec_restarted :
    let d := usb (.answers [1, 2, 0x33]) (Delivery.all 0)
    let r := transaction d 0 ⟨0, [0x16, 0x20], by simp⟩ [⟨1, [0x17], by simp⟩] 2 (fun _ => 0)
      ⟨Fx2.init, 0⟩
    ∃ ext bytes p, r.2.2.fx2.trace = Fx2.init.trace ++ ext ∧ transferred ext = bytes ++ [p] ∧
      bytes = [0x16, 0x20] ++ [0x17] ++ r.2.1.read 0 2 ∧
      ((Fx2lp.getArbPec d r.2.2).1.toNat = p.toNat * 256 + (crc8 bytes).toNat ↔ p < 0x80) :=
  arbPec_iff (responsive_answers _) (acksAll_answers _) (Delivery.all_delivered 0) rfl (by decide) 0
    ⟨0, [0x16, 0x20], by simp⟩ [⟨1, [0x17], by simp⟩] fun _ => 0

/-- A transaction whose PEC byte is `0x80`: the word has all its upper bits set. -/
theorem not_arbPec_sign :
    let d := usb (.answers [1, 0x80]) (Delivery.all 0)
    let r := transaction d 0 ⟨0, [0x17], by simp⟩ [] 1 (fun _ => 0) ⟨Fx2.init, 0⟩
    ¬ ∃ ext bytes p, r.2.2.fx2.trace = Fx2.init.trace ++ ext ∧ transferred ext = bytes ++ [p] ∧
      bytes = [0x17] ++ r.2.1.read 0 1 ∧
      (Fx2lp.getArbPec d r.2.2).1.toNat = p.toNat * 256 + (crc8 bytes).toNat := by
  rintro d r ⟨ext, bytes, p, htrace, hbytes, rfl, hword⟩
  obtain ⟨ext', p', htrace', hbytes', hmrq, hrcv⟩ := transaction_pecs (s := Fx2.init)
    (responsive_answers [1, 0x80]) (acksAll_answers _) (Delivery.all_delivered 0) rfl
    (Nat.le_refl 1) 0 ⟨0, [0x17], by simp⟩ [] fun _ => 0
  have hext : ext = ext' := List.append_cancel_left (htrace.symm.trans htrace')
  have hp : p = p' := by
    have h := hbytes.symm.trans (hext ▸ hbytes')
    exact (List.append_inj' h rfl).2 |> List.singleton_injective
  have hsent : r.2.2.fx2.rcvPec = 0x80 := by decide +kernel
  have hpec : r.2.2.fx2.mrqPec = crc8 ([0x17] ++ r.2.1.read 0 1) := hmrq
  rw [getArbPec_usb (Delivery.all_delivered 0 _), ← hpec, hp, ← hrcv,
    toNat_signExtend_append, show r.2.2.fx2.rcvPec = 0x80 from hsent] at hword
  exact absurd hword (by decide)

end Smbusb
