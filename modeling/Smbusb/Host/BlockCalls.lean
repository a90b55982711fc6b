import Smbusb.Logic.Runs
import Smbusb.Host.ReadBlock
import Smbusb.Host.WriteBlock

/-!
# Runs of block calls

A run is a list of block reads and block writes, each with what happens to its
transfers.  The firmware keeps one buffer and two cursors across them, so what a call
does depends on what the calls before it left.

*Writes.*  A block write is isolated when the bus shows nothing but a beginning of its
own frame.  It is, when it finds no live sequence, its chunks are in time, and its
length is one the two sides agree about and `temp` holds (`writeIsolated_run`).

*Reads.*  A block read is isolated when the data it returns came in a transaction it
started itself.  It is, when it finds nothing outstanding and its requests are in time
(`readIsolated_run`).

Neither holds of every run: a write that stopped between two chunks makes the next
write complete it, and a read whose PEC was wrong leaves its last bytes to the next
read.
-/

namespace Smbusb

open Logic Prog Fw Fx2lp

/-- A block call of the host. -/
inductive BlockCall where
  | read (address : UInt) (command : Byte) (buffer : Mem Byte)
  | write (address : UInt) (command : Byte) (data : List Byte) (fits : data.length < 256)

/-- A call, what becomes of its transfers, and how far its loop has got. -/
structure BlockStep where
  call : BlockCall
  way : Nat → Delivery
  fuel : Nat

namespace BlockStep

variable (T : Target)

/-- The result of a block read and the firmware after it. -/
def runRead (s : Fx2) (c : BlockStep) (address : UInt) (command : Byte) (buffer : Mem Byte) :
    Option (Int × Mem Byte) × Link :=
  Fx2lp.readBlock (usb T c.way) c.fuel address command buffer ⟨s, 0⟩

/-- The result of a block write and the firmware after it. -/
def runWrite (s : Fx2) (c : BlockStep) (address : UInt) (command : Byte) (data : List Byte) :
    Int × Link :=
  Fx2lp.writeBlock (usb T c.way) address command data (BitVec.ofNat 8 data.length) ⟨s, 0⟩

/-- The firmware after a call. -/
def next (s : Fx2) (c : BlockStep) : Fx2 :=
  match c.call with
  | .read address command buffer => (c.runRead T s address command buffer).2.fx2
  | .write address command data _ => (c.runWrite T s address command data).2.fx2

end BlockStep

/-! ## What a read sends -/

/-- Between two states no byte was sent but those that address a target for a read. -/
def ReadsOnly (setup : Setup) (s s' : Fx2) : Prop :=
  ∃ ext, s'.trace = s.trace ++ ext ∧ ∀ b ∈ sentBytes ext, b ∈ readAddress setup.value setup.index

section ReadsOnly

variable {T : Target} {way : Nat → Delivery} {setup : Setup} {s s' s'' : Fx2} {l : Link}

theorem ReadsOnly.refl (s : Fx2) : ReadsOnly setup s s := ⟨[], by simp, by simp⟩

theorem ReadsOnly.trans (h : ReadsOnly setup s s') (h' : ReadsOnly setup s' s'') :
    ReadsOnly setup s s'' := by
  obtain ⟨ext, htrace, hsent⟩ := h
  obtain ⟨ext', htrace', hsent'⟩ := h'
  refine ⟨ext ++ ext', by rw [htrace', htrace, List.append_assoc], fun b hb => ?_⟩
  rw [sentBytes_append, List.mem_append] at hb
  exact hb.elim (hsent b) (hsent' b)

variable (T way setup) in
/-- One request of a block read. -/
theorem inp_readsOnly (h : l.fx2.InBounds) :
    ReadsOnly setup l.fx2 ((usb T way).inp smbReadBlock setup 64 l).2.fx2 ∧
      ((usb T way).inp smbReadBlock setup 64 l).2.fx2.InBounds := by
  by_cases harr : (way l.sent).fate.arrives = true
  · obtain ⟨ok, s', ext, hrun, hin, hext, hsent⟩ := readBlock_any T loopFuel setup.value setup.index
      (by decide) (l.fx2.tick (way l.sent).gap) (h.tick _)
    obtain ⟨status, -, hinp⟩ := usb_inp_served way 64 harr
      (serve_of_run smbReadBlock hrun)
    rw [hinp]
    exact ⟨⟨ext, hext, fun b hb => hsent.subset hb⟩, hin⟩
  · obtain ⟨status, -, hinp⟩ := usb_inp_lost T way smbReadBlock setup 64 (by simpa using harr)
    rw [hinp]
    exact ⟨⟨[], by simp [Fx2.tick], by simp⟩, h.tick _⟩

variable (T way setup) in
theorem readBlockRest_readsOnly (fuel total rcvd : Nat) (data : Mem Byte) (h : l.fx2.InBounds) :
    ReadsOnly setup l.fx2 (readBlockRest (usb T way) setup total fuel rcvd data l).2.fx2 ∧
      (readBlockRest (usb T way) setup total fuel rcvd data l).2.fx2.InBounds := by
  induction fuel generalizing rcvd data l with
  | zero => exact ⟨ReadsOnly.refl _, h⟩
  | succ fuel ih =>
      rw [readBlockRest]
      split
      · obtain ⟨hsent, hin⟩ := inp_readsOnly T way setup h
        dsimp only
        split
        · exact ⟨hsent, hin⟩
        · obtain ⟨hsent', hin'⟩ := ih (rcvd + _) (data.write rcvd _) hin
          exact ⟨hsent.trans hsent', hin'⟩
      · exact ⟨ReadsOnly.refl _, h⟩

variable (T way) in
theorem readBlock_readsOnly (fuel : Nat) (address : UInt) (command : Byte) (data : Mem Byte)
    (h : l.fx2.InBounds) :
    ReadsOnly (setupOf address command) l.fx2
        (Fx2lp.readBlock (usb T way) fuel address command data l).2.fx2 ∧
      (Fx2lp.readBlock (usb T way) fuel address command data l).2.fx2.InBounds := by
  obtain ⟨hsent, hin⟩ := inp_readsOnly T way (setupOf address command) h
  simp only [Fx2lp.readBlock]
  split
  · exact ⟨hsent, hin⟩
  · obtain ⟨hsent', hin'⟩ := readBlockRest_readsOnly T way
      (setupOf address command) fuel _ _ _ hin
    exact ⟨hsent.trans hsent', hin'⟩

end ReadsOnly

/-! ## Writes -/

/-- What a call sends is its own: a block write a beginning of its frame, a block read
the bytes that address its target. -/
def WriteIsolated (T : Target) (s : Fx2) (c : BlockStep) : Prop :=
  match c.call with
  | .read address command _ => ReadsOnly (setupOf address command) s (c.next T s)
  | .write address command data _ => ∃ ext, (c.next T s).trace = s.trace ++ ext ∧
      sentBytes ext <+: writeFrame s.pecEnabled (setupOf address command) data

/-- A block write finds no live sequence when its first chunk arrives, its chunks are in
time, and its length is not 64 and at most 192. -/
def WriteFresh (s : Fx2) (c : BlockStep) : Prop :=
  match c.call with
  | .read .. => True
  | .write _ _ data _ =>
      (Arrives c.way 0 → (s.tick (c.way 0).gap).expire.templen = 0) ∧
      InTime c.way (chunks 64 (BitVec.ofNat 8 data.length :: data)).length ∧
      data.length ≠ 64 ∧ data.length ≤ tempSize

theorem toNat_ofNat_length {data : List Byte} (fits : data.length < 256) :
    data.length = (BitVec.ofNat 8 data.length).toNat := by
  simp
  omega

/-- What one call does. -/
theorem writeIsolated_step (T : Target) (s : Fx2) (c : BlockStep) (hs : s.InBounds)
    (hc : WriteFresh s c) : WriteIsolated T s c ∧ (c.next T s).InBounds := by
  obtain ⟨call, way, fuel⟩ := c
  cases call with
  | read address command buffer =>
      exact readBlock_readsOnly (l := ⟨s, 0⟩) T way fuel address command buffer hs
  | write address command data fits =>
      obtain ⟨hidle, htime, h64, hlen⟩ := hc
      have hout := sendChunks_outcome (l := ⟨s, 0⟩) T (setupOf address command) data way rfl
        fits h64 (fun harr => hidle ⟨fun j hj => absurd hj (Nat.not_lt_zero j), harr⟩) htime
      simp only [WriteIsolated, BlockStep.next, BlockStep.runWrite]
      rw [writeBlock_eq_sendChunks _ _ _ _ _ _ (toNat_ofNat_length fits)]
      generalize sendChunks (usb T way) (setupOf address command)
        (chunks 64 (BitVec.ofNat 8 data.length :: data)) ⟨s, 0⟩ = r at hout ⊢
      cases hout with
      | unsent htrace _ hbounds => exact ⟨⟨[], by simpa using htrace, by simp⟩, hbounds hlen hs⟩
      | @sent res l b hstart hbus _ _ _ hbounds =>
          obtain ⟨ext, hext, hpre⟩ := sentBytes_sendFrame (T := T)
            (writeFrame s.pecEnabled (setupOf address command) data) b
          rw [Extends, ← hbus, hstart] at hext
          cases res <;> exact ⟨⟨ext, hext, hpre⟩, hbounds hlen hs⟩

/-- In a run of calls whose writes find no live sequence, every call sends only bytes of
its own. -/
theorem writeIsolated_run (T : Target) {s : Fx2} {run : List BlockStep} (hs : s.InBounds)
    (hrun : EveryStep (BlockStep.next T) WriteFresh s run) :
    EveryStep (BlockStep.next T) (WriteIsolated T) s run :=
  everyStep_of_invariant Fx2.InBounds (fun s c hs hc => writeIsolated_step T s c hs hc) hs hrun

theorem Fx2.inBounds_init : Fx2.init.InBounds := ⟨Nat.le_refl _, Nat.zero_le _, rfl⟩

/-- A block write of three bytes, whose transfers are delivered at once. -/
def shortWrite : BlockStep := ⟨.write 0x16 0x20 [1, 2, 3] (by simp), Delivery.all 0, 0⟩

/-- A block read, whose transfers are delivered at once. -/
def plainRead : BlockStep := ⟨.read 0x16 0x23 fun _ => 0, Delivery.all 0, 4⟩

theorem writeIsolated_short :
    EveryStep (BlockStep.next (.answers [])) (WriteIsolated (.answers [])) Fx2.init
      [shortWrite, plainRead] := by
  refine writeIsolated_run (.answers []) Fx2.inBounds_init
    ⟨⟨fun _ => rfl, ?_, ?_, ?_⟩, trivial, trivial⟩
  · exact inTime_all_zero _
  · decide
  · decide

/-- A long write that loses its second chunk leaves a sequence. -/
theorem pending_of_lost (T : Target) (address : UInt) (command : Byte) (way : Nat → Delivery)
    {data : List Byte} {s : Fx2} (hdel : (way 0).fate = .delivered)
    (hlost : (way 1).fate.arrives = false) (hidle : (s.tick (way 0).gap).expire.templen = 0)
    (hlong : 64 < data.length) (fits : data.length < 256) :
    ∃ s', (Fx2lp.writeBlock (usb T way) address command data (BitVec.ofNat 8 data.length)
      ⟨s, 0⟩).2.fx2 = s'.tick (way 1).gap ∧ Pending (s.tick (way 0).gap) data 63 s' ∧
      s'.count = 0 := by
  obtain ⟨s₁, hserve, hp, hcount⟩ := Pending.opens T (setupOf address command) data
    hidle hlong fits
  have hcs : chunks 64 (BitVec.ofNat 8 data.length :: data) =
      (BitVec.ofNat 8 data.length :: data.take 63) :: chunks 64 (data.drop 63) :=
    chunks_cons (by omega) (by simp; omega)
  have hrest := chunks_of_ne_nil (n := 64) (by omega) (l := data.drop 63)
    (by rw [ne_eq, List.drop_eq_nil_iff]; omega)
  obtain ⟨_, hfirst⟩ := sendChunks_served (l := ⟨s, 0⟩) way (chunks 64 (data.drop 63))
    (by rw [hdel]; rfl) hserve
  obtain ⟨_, hsecond⟩ := sendChunks_lost (l := ⟨s₁, 1⟩) T (setupOf address command) way
    hlost ((data.drop 63).take 64) (chunks 64 ((data.drop 63).drop 64))
  refine ⟨s₁, ?_, hp, hcount⟩
  rw [writeBlock_eq_sendChunks _ _ _ _ _ _ (toNat_ofNat_length fits), hcs, hfirst,
    if_pos ⟨rfl, hdel⟩, hrest, hsecond]

/-- A short write that arrives inside a sequence sends more than its own frame. -/
theorem Pending.not_writeIsolated {T : Target} (hT : AcksAll T) {s₀ s : Fx2} {data : List Byte}
    (hp : Pending s₀ data 63 s) (hcount : s.count = 0) (hlong : 64 < data.length)
    (hlen : data.length ≤ 127) : ¬ WriteIsolated T s shortWrite := by
  rintro ⟨ext, hext, hpre⟩
  obtain ⟨s', frame, hserve, htrace, hframe⟩ := (hp.tick 0).adopts (setupOf 0x16 0x20) hT
    (by simp [Fx2.tick, hcount, blockSeqTimeout]) (by omega) (by omega) (by omega) [3, 1, 2, 3]
  obtain ⟨_, hsend⟩ := sendChunks_served (l := ⟨s, 0⟩) shortWrite.way [] rfl hserve
  have hnext : shortWrite.next T s = s' := by
    change (Fx2lp.writeBlock (usb T shortWrite.way) 0x16 0x20 [1, 2, 3] 3 ⟨s, 0⟩).2.fx2 = s'
    rw [writeBlock_eq_sendChunks _ _ _ _ _ _ rfl, chunks_last (by simp) (by simp), hsend,
      if_pos ⟨rfl, rfl⟩]
    rfl
  rw [hnext, htrace] at hext
  have heq : frameTrace frame = ext := List.append_cancel_left hext
  have hle := hpre.length_le
  rw [← heq, sentBytes_frameTrace, hframe, writeFrame, length_blockFrame] at hle
  have hpec : (s.tick 0).pecEnabled = s.pecEnabled := rfl
  simp only [hpec, List.length_cons, List.length_nil] at hle
  omega

/-- A write whose second chunk gets lost. -/
def brokenWrite (data : List Byte) (fits : data.length < 256) : BlockStep :=
  ⟨.write 0x16 0x20 data fits, fun k => ⟨0, if k = 0 then .delivered else .lost 0⟩, 0⟩

theorem brokenWrite_adopted {T : Target} (hT : AcksAll T) {data : List Byte}
    (hlong : 64 < data.length) (hlen : data.length ≤ 127) :
    ¬ EveryStep (BlockStep.next T) (WriteIsolated T) Fx2.init
      [brokenWrite data (by omega), shortWrite] := by
  rintro ⟨-, h, -⟩
  obtain ⟨s, hbroken, hp, hcount⟩ := pending_of_lost (s := Fx2.init) T 0x16 0x20
    (brokenWrite data (by omega)).way rfl rfl rfl hlong (by omega)
  have hnext : (brokenWrite data (by omega)).next T Fx2.init = s.tick 0 := hbroken
  rw [hnext] at h
  exact (hp.tick 0).not_writeIsolated hT (by simp [Fx2.tick, hcount]) hlong hlen h

/-- The write after the broken one sends a frame with the count and the data of the broken
one. -/
theorem not_writeIsolated_broken :
    ¬ EveryStep (BlockStep.next (.answers [])) (WriteIsolated (.answers [])) Fx2.init
      [brokenWrite (List.replicate 70 7) (by simp), shortWrite] :=
  brokenWrite_adopted (acksAll_answers []) (by simp) (by simp)

/-! ## Reads -/

/-- The call got these `n` bytes from the target, in a transaction it started for its own
address and command. -/
def OwnBlock (setup : Setup) (s s' : Fx2) (n : Int) (data : Mem Byte) : Prop :=
  ∃ k count block pec ext,
    s'.trace = s.trace ++ (List.replicate k (.start true) ++ addressing setup) ++ ext ∧
    EndsRead (count :: block) pec ext ∧ count.toNat = block.length ∧ n = block.length ∧
    data.read 0 block.length = block

/-- A block read that returns `n ≥ 0` returns a block it read itself. -/
def ReadIsolated (T : Target) (s : Fx2) (c : BlockStep) : Prop :=
  match c.call with
  | .read address command buffer => ∀ n data,
      (c.runRead T s address command buffer).1 = some (n, data) → 0 ≤ n →
      OwnBlock (setupOf address command) s (c.next T s) n data
  | .write .. => True

/-- A block read finds nothing outstanding when its first request arrives, the others are
in time, and so far no access was past the end of an array. -/
def ReadFresh (s : Fx2) (c : BlockStep) : Prop :=
  match c.call with
  | .read .. => (Arrives c.way 0 →
      (s.tick (c.way 0).gap).expire.templen = (s.tick (c.way 0).gap).expire.tempptr) ∧
      InTime c.way 4 ∧ s.oob = false
  | .write .. => True

theorem readIsolated_step {T : Target} (hT : Responsive T) (hfit : CountsFit T) (s : Fx2)
    (c : BlockStep) (hc : ReadFresh s c) : ReadIsolated T s c := by
  obtain ⟨call, way, fuel⟩ := c
  cases call with
  | write address command data fits => trivial
  | read address command buffer =>
      obtain ⟨hidle, htime, -⟩ := hc
      intro n data hres hn
      simp only [BlockStep.runRead] at hres
      simp only [BlockStep.next, BlockStep.runRead]
      by_cases harr : (way 0).fate.arrives = true
      swap
      · obtain ⟨status, hneg, hinp⟩ := usb_inp_lost (l := ⟨s, 0⟩) T way smbReadBlock
          (setupOf address command) 64 (by simpa using harr)
        have hle : status ≤ 0 := Int.le_of_lt hneg
        simp only [Fx2lp.readBlock, hinp, hle, if_true, Option.some.injEq, Prod.mk.injEq] at hres
        omega
      obtain ⟨ok, s', hrun, hok⟩ := readBlock_fresh loopFuel (setupOf address command).value
        (setupOf address command).index hT hfit (by decide)
        (hidle ⟨fun j hj => absurd hj (Nat.not_lt_zero j), harr⟩)
      have hserve : serve T smbReadBlock (setupOf address command) (s.tick (way 0).gap) =
        (ok, s') :=
        serve_of_run _ hrun
      by_cases hdone : ok = true ∧ (way 0).fate = .delivered
      swap
      · obtain ⟨status, hneg, hinp⟩ := usb_inp_served (l := ⟨s, 0⟩) way 64 harr hserve
        have hle : status ≤ 0 := Int.le_of_lt hneg
        simp only [Fx2lp.readBlock, hinp, hdone, if_false, hle, if_true, Option.some.injEq,
          Prod.mk.injEq] at hres
        omega
      obtain ⟨rfl, hdel⟩ := hdone
      obtain ⟨k, f, m, hm, h1, h2, ⟨ext, htrace, hends⟩, hready⟩ := hok rfl
      have hout := readBlock_outcome fuel buffer hdel hserve hm h1 h2
        hready htime
      generalize Fx2lp.readBlock (usb T way) fuel address command buffer ⟨s, 0⟩ = r at hout hres ⊢
      cases hout with
      | failed hneg _ =>
          simp only [Option.some.injEq, Prod.mk.injEq] at hres
          omega
      | running _ => simp at hres
      | done htr _ =>
          simp only [Option.some.injEq, Prod.mk.injEq] at hres
          obtain ⟨rfl, rfl⟩ := hres
          have hlen : (blockData f m).length = m := by simp [blockData]
          rw [firstBytes_eq_cons] at hends
          exact ⟨k, f 0, blockData f m, f (m + 1), ext, htr.trans htrace, hends, by rw [hm, hlen],
            by rw [hlen], Mem.read_write _ 0 _⟩

/-- In a run of calls whose reads find nothing outstanding, with a target that sends every
byte in time and never announces 254 bytes, every block read returns its own bytes. -/
theorem readIsolated_run {T : Target} (hT : Responsive T) (hfit : CountsFit T) {s : Fx2}
    {run : List BlockStep} (hrun : EveryStep (BlockStep.next T) ReadFresh s run) :
    EveryStep (BlockStep.next T) (ReadIsolated T) s run :=
  everyStep_of_invariant (fun _ => True)
    (fun s c _ hc => ⟨readIsolated_step hT hfit s c hc, trivial⟩) trivial hrun

theorem countsFit_answers {bs : List Byte} (h : 0xFE ∉ bs) : CountsFit (.answers bs) := by
  have hget : ∀ k, bs.getD k 0 ≠ 0xFE := by
    intro k hfe
    rcases Nat.lt_or_ge k bs.length with hk | hk
    · rw [List.getD_eq_getElem _ _ hk] at hfe
      exact h (hfe ▸ List.getElem_mem hk)
    · rw [List.getD_eq_default _ _ hk] at hfe
      exact absurd hfe (by decide)
  exact fun _ _ _ => hget _

theorem readIsolated_short :
    EveryStep (BlockStep.next (.answers [3, 1, 2, 4, 0])) (ReadIsolated (.answers [3, 1, 2, 4, 0]))
      Fx2.init [plainRead, shortWrite] :=
  readIsolated_run (responsive_answers _) (countsFit_answers (by decide))
    ⟨⟨fun _ => rfl, inTime_all_zero 4, rfl⟩, trivial, trivial⟩

/-- A read that finds a block outstanding, its count first, returns it without a
transaction. -/
theorem Outstanding.not_readIsolated {T : Target} {s : Fx2} {count : Byte} {stale : List Byte}
    (h : Outstanding (count :: stale) s) (hlive : s.count = 0) (hcount : count.toNat = stale.length)
    (hlen : stale.length ≤ 63) : ¬ ReadIsolated T s plainRead := by
  intro hiso
  obtain ⟨s', hserve, hreply, hbus, -, -⟩ :=
    serve_hands_out T (setupOf 0x16 0x23) h (by simp) (by rw [hlive]; decide)
  rw [← Fx2.tick_zero s] at hserve
  rw [List.take_of_length_le (by simp only [List.length_cons]; omega)] at hreply
  obtain ⟨status, -, hinp⟩ := usb_inp_served (l := ⟨s, 0⟩) plainRead.way 64 rfl
    hserve
  rw [hreply, if_pos ⟨rfl, rfl⟩] at hinp
  have hpos : ¬ ((count :: stale).length : Int) ≤ 0 := by
    rw [List.length_cons]
    omega
  have hrcvd : ((count :: stale).length : Int).toNat - 1 = stale.length := by
    rw [Int.toNat_natCast, List.length_cons, Nat.add_sub_cancel]
  have hrun : plainRead.runRead T s 0x16 0x23 (fun _ => 0) =
      (some ((stale.length : Int), Mem.write (fun _ => 0) 0 stale), ⟨s', 1⟩) := by
    simp only [BlockStep.runRead, Fx2lp.readBlock, hinp, hpos, if_false, List.headD_cons,
      List.drop_succ_cons, List.drop_zero, hrcvd, List.take_length, hcount]
    change readBlockRest _ _ _ 4 _ _ _ = _
    rw [readBlockRest, if_neg (Nat.lt_irrefl _)]
  obtain ⟨k, c, block, pec, ext, htrace, -⟩ :=
    hiso _ _ (congrArg Prod.fst hrun) (Int.natCast_nonneg _)
  have hnext : plainRead.next T s = s' := congrArg (fun r => r.2.fx2) hrun
  have hsame : s'.trace = s.trace := congrArg I2c.trace hbus
  have hlong := congrArg List.length htrace
  rw [hnext, hsame] at hlong
  simp [addressing, addressEvents] at hlong

/-- A read whose PEC is wrong fails, and leaves what it read behind the first 63 bytes. -/
theorem outstanding_of_badPec {T : Target} (hT : Responsive T) (hA : AcksAll T) {s : Fx2}
    {block : List Byte} {pec : Byte} (hidle : s.expire.templen = s.expire.tempptr)
    (hon : s.pecEnabled = true) (hpec : pec ≠ blockPec (setupOf 0x16 0x23) block)
    (hlong : 63 < block.length) (hlen : block.length ≤ 253)
    (hstream : Streams T (s.trace ++ addressing (setupOf 0x16 0x23)) (blockStream block pec)) :
    Outstanding (block.drop 63) (plainRead.next T s) ∧ (plainRead.next T s).count = 0 := by
  have hcount : (blockStream block pec 0).toNat = block.length := by
    rw [blockStream_zero]
    simp
    omega
  obtain ⟨ok, s', hrun, -, -, hbad⟩ := readBlock_fresh_acks (s := s) loopFuel
    (setupOf 0x16 0x23).value (setupOf 0x16 0x23).index hT (hA.acksAddress _) (by decide)
    hidle hstream hcount (by omega) (by omega)
  rw [← Fx2.tick_zero s] at hrun
  rw [blockStream_last, readPec_blockStream, firstBytes_blockStream] at hbad
  obtain ⟨rfl, -, hout⟩ := hbad hon hpec
  obtain ⟨status, hneg, hinp⟩ := usb_inp_served (l := ⟨s, 0⟩) plainRead.way 64 rfl
    (serve_of_run smbReadBlock hrun)
  have hle : status ≤ 0 := Int.le_of_lt hneg
  have hnext : plainRead.next T s = s' := by
    simp only [BlockStep.next, plainRead, BlockStep.runRead, Fx2lp.readBlock]
    simp only [plainRead] at hinp
    simp only [hinp, Bool.false_eq_true, false_and, if_false, hle, if_true]
  rw [hnext]
  exact hout hlong

theorem badPec_read_stale {T : Target} (first : List Byte) (count : Byte) (stale : List Byte)
    {pec : Byte} (hT : Responsive T) (hA : AcksAll T)
    (hpec : pec ≠ blockPec (setupOf 0x16 0x23) (first ++ count :: stale))
    (hfirst : first.length = 63)
    (hcount : count.toNat = stale.length) (hlen : stale.length ≤ 63)
    (hstream : Streams T (addressing (setupOf 0x16 0x23))
      (blockStream (first ++ count :: stale) pec)) :
    ¬ EveryStep (BlockStep.next T) (ReadIsolated T) { Fx2.init with pecEnabled := true }
      [plainRead, plainRead] := by
  rintro ⟨-, h, -⟩
  obtain ⟨hout, hzero⟩ :=
    outstanding_of_badPec (s := { Fx2.init with pecEnabled := true }) hT hA rfl
    rfl hpec (by simp; omega) (by simp; omega) hstream
  rw [← hfirst, List.drop_left] at hout
  exact hout.not_readIsolated hzero hcount hlen h

/-- The read after one whose PEC was wrong returns six bytes of it. -/
theorem not_readIsolated_badPec :
    let block := List.replicate 63 0 ++ [6, 1, 1, 1, 1, 1, 1]
    let T := Target.answers (70 :: block ++ [blockPec (setupOf 0x16 0x23) block + 1])
    ¬ EveryStep (BlockStep.next T) (ReadIsolated T) { Fx2.init with pecEnabled := true }
      [plainRead, plainRead] :=
  badPec_read_stale (List.replicate 63 0) 6 [1, 1, 1, 1, 1, 1] (responsive_answers _)
    (acksAll_answers _) (by simp) (by simp) rfl (by simp) (streams_answers _ rfl)

end Smbusb
