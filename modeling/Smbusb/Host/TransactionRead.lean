import Smbusb.Firmware.TransactionRead
import Smbusb.Host.Transaction

/-!
# Arbitrary reads from end to end

The host cuts an arbitrary read into requests of up to 64 bytes and marks the first
and the last.  The firmware knows its own request only: it sets LASTRD in the turn
before the last one of a request that is marked as the last.

*Requests.*  `Along` is the state between two requests of a read, when the first `g`
bytes were handed over and byte `g` has arrived.  `inp_along` and `inp_ended` are a
request inside the read and the last one.

*The end.*  The last turn needs a turn before it in its request.  It has none when the
last request is for one byte and no PEC is read behind it.  Then nothing sets LASTRD,
unless that request is also the first, for which the firmware sets it in advance
(`readDelivers_iff`).
-/

namespace Smbusb

open Logic Prog Fw Fx2lp

/-! ## Flags of a whole read -/

/-- The last request is for one byte, with no PEC behind it. -/
def alone (on : Bool) (len : Nat) : Bool := !on && len % 64 == 1

/-- The turn of a read of `len` bytes in which LASTRD is set. -/
def readBeforeLast (on : Bool) (len k : Nat) : Bool :=
  k + 2 == readTurns on true len && !alone on len

/-- The turn of a read of `len` bytes in which STOP is set. -/
def readLast (on : Bool) (len k : Nat) : Bool := k + 1 == readTurns on true len

/-- The trace of a read whose first `g` bytes were handed over. -/
def readTrace (s : Fx2) (f : Nat → Byte) (len g : Nat) : List Event :=
  s.trace ++ [.fetch s.i2dat, .recv (f 0) s.lastrdBit] ++
    turns f (readBeforeLast s.pecEnabled len) (readLast s.pecEnabled len) g

/-- The target answers a read of `len` bytes with the bytes of `f`. -/
structure Sends (T : Target) (s : Fx2) (f : Nat → Byte) (len : Nat) : Prop where
  first : (T.recv (s.trace ++ [.fetch s.i2dat])).2 = f 0
  others : ∀ N, Follows T (s.trace ++ [.fetch s.i2dat, .recv (f 0) s.lastrdBit]) f
    (readBeforeLast s.pecEnabled len) (readLast s.pecEnabled len) N

theorem exists_sends (T : Target) (s : Fx2) (len : Nat) : ∃ f, Sends T s f len := by
  obtain ⟨f, hzero, hf⟩ := exists_follows T (s.trace ++ [.fetch s.i2dat,
    .recv (T.recv (s.trace ++ [.fetch s.i2dat])).2 s.lastrdBit])
      (T.recv (s.trace ++ [.fetch s.i2dat])).2
    (readBeforeLast s.pecEnabled len) (readLast s.pecEnabled len)
  exact ⟨f, hzero.symm, fun N => by rw [hzero]; exact hf N⟩

/-! ## Between two requests -/

/-- The bus before the request from byte `g` on. -/
def BusBefore (s : Fx2) (f : Nat → Byte) (len g : Nat) (b : I2c) : Prop :=
  if g = 0 then b.trace = s.trace ∧ b.i2dat = s.i2dat ∧ b.lastrdBit = s.lastrdBit
  else Arrived f g (readTrace s f len g) b

/-- The state before the request from byte `g` on. -/
structure Along (s : Fx2) (f : Nat → Byte) (len g : Nat) (s' : Fx2) : Prop where
  bus : BusBefore s f len g s'.toI2c
  pec : s'.mrqPec = pecOver s.pecEnabled (Mem.read f 0 g) s.mrqPec
  pecEnabled : s'.pecEnabled = s.pecEnabled

/-- The state behind the last request. -/
structure Ended (s : Fx2) (f : Nat → Byte) (len : Nat) (s' : Fx2) : Prop where
  trace : s'.trace = readTrace s f len (readTurns s.pecEnabled true len)
  pec : s'.mrqPec = pecOver s.pecEnabled (Mem.read f 0 len) s.mrqPec
  rcvPec : s.pecEnabled = true → s'.rcvPec = f len

section

variable {T : Target} {way : Nat → Delivery} {s : Fx2} {f : Nat → Byte} {len g n : Nat} {l : Link}

/-- The first request starts the first byte, the others find theirs. -/
theorem BusBefore.ready {b : I2c} (hT : Responsive T) (hs : Sends T s f len)
    (h : BusBefore s f len g b) :
    ∃ b₁, Ready T (decide (g = 0)) f g (readTrace s f len g) b b₁ := by
  by_cases hg : g = 0
  · subst hg
    rw [BusBefore, if_pos rfl] at h
    obtain ⟨htrace, hdat, hbit⟩ := h
    obtain ⟨b₁, hrecv, hdat₁, hbit₁, htrace₁⟩ := awaitByte_of_responsive hT b.fetch
    have hrecvd : (T.recv b.fetch.trace).2 = f 0 := by
      rw [← hs.first]
      simp [I2c.fetch, htrace, hdat]
    refine ⟨b₁, ⟨fun bl l => by simp [i2cBytein, hrecv], ⟨hdat₁.trans hrecvd, hbit₁, ?_⟩⟩⟩
    rw [htrace₁, hrecvd]
    simp [I2c.fetch, readTrace, turns, htrace, hdat, hbit]
  · rw [BusBefore, if_neg hg] at h
    exact ⟨b, ⟨fun bl l => by simp [hg], h⟩⟩

/-- The state before a request is that of the read, whatever time has passed. -/
theorem Along.tick {s' : Fx2} (h : Along s f len g s') (ticks : Nat) :
    Along s f len g (s'.tick ticks) := by
  refine ⟨?_, h.pec, h.pecEnabled⟩
  have hbus := h.bus
  by_cases hg : g = 0
  · rw [BusBefore, if_pos hg] at hbus ⊢
    exact hbus
  · rw [BusBefore, if_neg hg] at hbus ⊢
    exact ⟨hbus.dat, hbus.bit, hbus.trace⟩

/-- A request of `n` bytes, whose flags fit those of the whole read. -/
theorem inp_read (hT : Responsive T) (hs : Sends T s f len) (hdel : (way l.sent).fate = .delivered)
    (hn : 0 < n) (hn64 : n ≤ 64) (last : Bool)
    (hone : g = 0 → readTurns s.pecEnabled last n ≠ 1)
    (hbl : ∀ k < readTurns s.pecEnabled last n, readBeforeLast s.pecEnabled len (g + k) =
      (last && k + 2 == readTurns s.pecEnabled last n))
    (hl : ∀ k < readTurns s.pecEnabled last n, readLast s.pecEnabled len (g + k) =
      (last && k + 1 == readTurns s.pecEnabled last n))
    (h : Along s f len g l.fx2) :
    ∃ s' : Fx2, (usb T way).inp smbRead
        ⟨BitVec.ofNat 16 n, (readFlags (decide (g = 0)) last).setWidth 16⟩ n l =
          (((n : Int), Mem.read f g n), ⟨s', l.sent + 1⟩) ∧
      s'.trace = readTrace s f len (g + readTurns s.pecEnabled last n) ∧ s'.lastrdBit = false ∧
      (last = false → s'.i2dat = f (g + readTurns s.pecEnabled last n)) ∧
      s'.mrqPec = pecOver s.pecEnabled (Mem.read f 0 (g + n)) s.mrqPec ∧
      s'.pecEnabled = s.pecEnabled ∧
        (n < readTurns s.pecEnabled last n → s'.rcvPec = f (g + n)) := by
  have ht := h.tick (way l.sent).gap
  generalize hs₁ : l.fx2.tick (way l.sent).gap = s₁ at ht
  obtain ⟨b', hrun, hbit, htrace, hdat⟩ := readBytes_run (s := s₁)
    (N := g + readTurns s.pecEnabled last n) (decide (g = 0)) last loopFuel hT (by decide) hn hn64
    (ht.bus.ready hT hs) (by rw [ht.pecEnabled]; simpa using hone)
    (by rw [ht.pecEnabled]; exact hbl) (by rw [ht.pecEnabled]; exact hl) (hs.others _)
    (by rw [ht.pecEnabled]; omega)
  rw [ht.pecEnabled] at hrun htrace hdat
  generalize hj : readTurns s.pecEnabled last n = j at *
  have hnj : min n j = n := by
    rw [← hj, readTurns]
    omega
  obtain ⟨s', hs'⟩ : ∃ s' : Fx2, s' = { s₁.readSoFar f g n j b' with ep0bcl := BitVec.ofNat 8 n } :=
    ⟨_, rfl⟩
  have hserve : serve T smbRead ⟨BitVec.ofNat 16 n, (readFlags (decide (g = 0)) last).setWidth 16⟩
      (l.fx2.tick (way l.sent).gap) = (true, s') := by
    rw [hs₁, hs']
    exact serve_of_run smbRead hrun
  have hreply : s'.reply n = Mem.read f g n := by
    have hmin : min (BitVec.ofNat 8 n).toNat n = (Mem.read f g n).length := by
      simp
      omega
    rw [hs', Fx2.reply]
    simp only [Fx2.readSoFar, hnj]
    rw [hmin, Mem.read_write]
  refine ⟨s', ?_, ?_, ?_, ?_, ?_, ?_, ?_⟩
  · simp only [usb, hdel, hserve, hreply, if_true, Mem.length_read]
  · rw [hs']
    exact htrace
  · rw [hs']
    exact hbit
  · rw [hs']
    exact hdat
  · rw [hs']
    simp only [Fx2.readSoFar, hnj, ht.pec, ht.pecEnabled, ← pecOver_append]
    rw [Mem.read_add, Nat.zero_add]
  · rw [hs']
    exact ht.pecEnabled
  · intro hlt
    rw [hs']
    simp only [Fx2.readSoFar, hlt, if_true]

/-- A request that is not the last. -/
theorem inp_along (hT : Responsive T) (hs : Sends T s f len) (hdel : (way l.sent).fate = .delivered)
    (hlen : g + 64 < len) (hmod : g % 64 = 0) (h : Along s f len g l.fx2) :
    ∃ l' : Link, Along s f len (g + 64) l'.fx2 ∧ (usb T way).inp smbRead
      ⟨64, (readFlags (decide (g = 0)) false).setWidth 16⟩ 64 l = ((64, Mem.read f g 64), l') := by
  have hj : readTurns s.pecEnabled false 64 = 64 := by simp [readTurns]
  have hbl : ∀ k < readTurns s.pecEnabled false 64, readBeforeLast s.pecEnabled len (g + k) =
      (false && k + 2 == readTurns s.pecEnabled false 64) := by
    intro k hk
    rw [hj] at hk
    simp only [readBeforeLast, readTurns, alone, Bool.and_true, Bool.false_and]
    cases s.pecEnabled <;> simp <;> omega
  have hl : ∀ k < readTurns s.pecEnabled false 64, readLast s.pecEnabled len (g + k) =
      (false && k + 1 == readTurns s.pecEnabled false 64) := by
    intro k hk
    rw [hj] at hk
    simp only [readLast, readTurns, Bool.and_true, Bool.false_and]
    cases s.pecEnabled <;> simp <;> omega
  obtain ⟨s', hinp, htrace, hbit, hdat, hpec, hon, -⟩ := inp_read (n := 64) hT hs hdel (by omega)
    le_rfl false (by rw [hj]; omega) hbl hl h
  rw [hj] at htrace hdat
  refine ⟨⟨s', l.sent + 1⟩, ⟨?_, hpec, hon⟩, hinp⟩
  rw [BusBefore, if_neg (by omega)]
  exact ⟨hdat rfl, hbit, htrace⟩

/-- The last request. -/
theorem inp_ended (hT : Responsive T) (hs : Sends T s f len) (hdel : (way l.sent).fate = .delivered)
    (hn : 0 < n) (hn64 : n ≤ 64) (hlen : g + n = len) (hmod : g % 64 = 0)
    (hone : s.pecEnabled = true ∨ len ≠ 1) (h : Along s f len g l.fx2) :
    ∃ l' : Link, Ended s f len l'.fx2 ∧ (usb T way).inp smbRead
      ⟨BitVec.ofNat 16 n, (readFlags (decide (g = 0)) true).setWidth 16⟩ n l =
        (((n : Int), Mem.read f g n), l') := by
  have hj : readTurns s.pecEnabled true n = n + s.pecEnabled.toNat := by simp [readTurns]
  have htotal : g + readTurns s.pecEnabled true n = readTurns s.pecEnabled true len := by
    simp only [readTurns]
    omega
  have hsingle : g = 0 → readTurns s.pecEnabled true n ≠ 1 := by
    intro hg
    rw [hj]
    rcases hone with hon | hne
    · rw [hon]
      simp
      omega
    · omega
  have hbl : ∀ k < readTurns s.pecEnabled true n, readBeforeLast s.pecEnabled len (g + k) =
      (true && k + 2 == readTurns s.pecEnabled true n) := by
    intro k hk
    rw [readBeforeLast, ← htotal, hj, alone]
    rw [hj] at hk
    cases hon : s.pecEnabled with
    | true =>
      simp
      omega
    | false =>
      have hiff : (g + k + 2 == g + (n + false.toNat)) = (k + 2 == n + false.toNat) := by
        rw [Bool.eq_iff_iff, beq_iff_eq, beq_iff_eq]
        omega
      rw [hiff]
      by_cases hlast : k + 2 = n
      · have hmany : ¬ len % 64 = 1 := by omega
        simp [hlast, hmany]
      · simp [hlast]
  have hl : ∀ k < readTurns s.pecEnabled true n, readLast s.pecEnabled len (g + k) =
      (true && k + 1 == readTurns s.pecEnabled true n) := by
    intro k hk
    rw [readLast, ← htotal]
    simp
    omega
  obtain ⟨s', hinp, htrace, -, -, hpec, -, hrcv⟩ :=
    inp_read hT hs hdel hn hn64 true hsingle hbl hl h
  rw [htotal] at htrace
  rw [hlen] at hpec hrcv
  refine ⟨⟨s', l.sent + 1⟩, ⟨htrace, hpec, fun hon => hrcv ?_⟩, hinp⟩
  rw [hj, hon]
  simp

/-! ## The call -/

/-- The driver adds the flag of the end. -/
theorem readFlags_last (first : Bool) : readFlags first false ||| readCmdLastRead =
    readFlags first true := by
  cases first <;> decide

/-- The whole chunks of the driver's loop before the last request. -/
theorem readWhole_along (hT : Responsive T) (hs : Sends T s f len)
    (hdel : ∀ k, (way k).fate = .delivered) (lastRead : Byte) {wholeReads remainder : Nat}
    (hsum : wholeReads * 64 + remainder = len) (k : Nat) {left i : Nat}
    (hlen : (i + left) * 64 < len) (status : Int) (data : Mem Byte)
    (h : Along s f len (i * 64) l.fx2) :
    ∃ (l' : Link) (status' : Int), Along s f len ((i + left) * 64) l'.fx2 ∧
      readWhole (usb T way) lastRead wholeReads remainder (left + k) i
        (readFlags (decide (i * 64 = 0)) false) status data l =
      readWhole (usb T way) lastRead wholeReads remainder k (i + left)
        (readFlags (decide ((i + left) * 64 = 0)) false) status'
        (data.write (i * 64) (Mem.read f (i * 64) (left * 64))) l' := by
  induction left generalizing i status data l with
  | zero => exact ⟨l, status, h, by simp⟩
  | succ left ih =>
    obtain ⟨l₁, halong, hinp⟩ := inp_along hT hs (hdel l.sent) (by omega) (by omega) h
    have hmid : ¬ (lastRead ≠ 0 ∧ i + 1 = wholeReads ∧ remainder = 0) := by omega
    rw [show i * 64 + 64 = (i + 1) * 64 by omega] at halong
    obtain ⟨l', status', halong', hrest⟩ := ih (l := l₁) (i := i + 1) (by omega) 64
      (data.write (i * 64) (Mem.read f (i * 64) 64)) halong
    rw [show i + 1 + left = i + (left + 1) by omega] at halong' hrest
    refine ⟨l', status', halong', ?_⟩
    have hfirst : readFlags (decide ((i + 1) * 64 = 0)) false = readFlags false false := by simp
    rw [hfirst] at hrest
    have hwrite := Mem.write_append data (i * 64) (Mem.read f (i * 64) 64)
      (Mem.read f ((i + 1) * 64) (left * 64))
    rw [Mem.length_read, show i * 64 + 64 = (i + 1) * 64 by omega] at hwrite
    have hread : Mem.read f (i * 64) ((left + 1) * 64) =
        Mem.read f (i * 64) 64 ++ Mem.read f ((i + 1) * 64) (left * 64) := by
      rw [show (left + 1) * 64 = 64 + left * 64 by omega, Mem.read_add,
        show i * 64 + 64 = (i + 1) * 64 by omega]
    rw [hread, ← hwrite, ← hrest, show left + 1 + k = (left + k) + 1 by omega, readWhole]
    simp only [hmid, if_false, hinp, readFlags_clear]
    rfl

/-- The state a read starts in. -/
theorem along_zero : Along s f len 0 s := by
  refine ⟨?_, ?_, rfl⟩
  · rw [BusBefore, if_pos rfl]
    exact ⟨rfl, rfl, rfl⟩
  · simp [pecOver]

/-- Two pieces of a read are one piece. -/
theorem write_read_append (data : Mem Byte) (f : Nat → Byte) (a b : Nat) :
    (data.write 0 (Mem.read f 0 a)).write a (Mem.read f a b) =
      data.write 0 (Mem.read f 0 (a + b)) := by
  have h := Mem.write_append data 0 (Mem.read f 0 a) (Mem.read f a b)
  rw [Mem.length_read, Nat.zero_add] at h
  rw [h, Mem.read_add, Nat.zero_add]

/-- An arbitrary read, but for one of a single byte without a PEC. -/
theorem read_usb (hT : Responsive T) (hs : Sends T l.fx2 f len)
    (hdel : ∀ k, (way k).fate = .delivered) (hlen : 0 < len)
    (hone : l.fx2.pecEnabled = true ∨ len ≠ 1) {lastRead : Byte} (hlast : lastRead ≠ 0)
    (status : Int) (data : Mem Byte) :
    ∃ (l' : Link) (status' : Int), Ended l.fx2 f len l'.fx2 ∧
      Fx2lp.read (usb T way) status len data lastRead l =
        (status', data.write 0 (Mem.read f 0 len), l') := by
  have hzero : Along l.fx2 f len (0 * 64) l.fx2 := along_zero
  have hflags : readFlags (decide (0 * 64 = 0)) false = readCmdFirstRead := rfl
  simp only [Fx2lp.read]
  generalize hw : len / 64 = wholeReads
  have hmul : wholeReads * 64 ≤ len := by omega
  generalize hrem : len - wholeReads * 64 = remainder
  rcases Nat.eq_zero_or_pos remainder with rfl | hpos
  · obtain ⟨left, rfl⟩ : ∃ left, wholeReads = left + 1 := ⟨wholeReads - 1, by omega⟩
    obtain ⟨l₁, status₁, halong, hloop⟩ := readWhole_along hT hs hdel lastRead
      (show (left + 1) * 64 + 0 = len by omega) 1 (show (0 + left) * 64 < len by omega) status data
      hzero
    rw [hflags] at hloop
    simp only [Nat.zero_add, Nat.zero_mul] at halong hloop
    obtain ⟨l', hended, hinp⟩ := inp_ended hT hs (hdel l₁.sent) (n := 64) (by omega) le_rfl
      (by omega) (by omega) hone halong
    change (usb T way).inp smbRead ⟨64, _⟩ 64 l₁ = ((64, _), l') at hinp
    refine ⟨l', 64, hended, ?_⟩
    rw [hloop, readWhole]
    simp only [hlast, ne_eq, not_false_eq_true, and_self, if_true, readFlags_last, hinp,
      Int.lt_irrefl, if_false, readWhole]
    rw [write_read_append, show left * 64 + 64 = len by omega, if_neg (Nat.lt_irrefl 0)]
  · obtain ⟨l₁, status₁, halong, hloop⟩ := readWhole_along hT hs hdel lastRead
      (show wholeReads * 64 + remainder = len by omega) 0
      (show (0 + wholeReads) * 64 < len by omega) status data hzero
    rw [hflags] at hloop
    simp only [Nat.zero_add, Nat.add_zero, Nat.zero_mul] at halong hloop
    obtain ⟨l', hended, hinp⟩ := inp_ended hT hs (hdel l₁.sent) hpos (by omega)
      (show wholeReads * 64 + remainder = len by omega) (by omega) hone halong
    refine ⟨l', remainder, hended, ?_⟩
    rw [hloop, readWhole]
    simp only [hpos, if_true, hlast, ne_eq, not_false_eq_true, readFlags_last, hinp]
    rw [write_read_append, show wholeReads * 64 + remainder = len by omega]

end

/-! ## What the bus shows -/

/-- The bytes received, each with whether the master NACKed it. -/
def receptions (tr : List Event) : List (Byte × Bool) :=
  tr.filterMap fun
    | .recv b nacked => some (b, nacked)
    | _ => none

theorem receptions_append (tr tr' : List Event) :
    receptions (tr ++ tr') = receptions tr ++ receptions tr' := List.filterMap_append

/-- The read received its bytes and, with the PEC on, one byte more.  LASTRD and STOP were
set once each, before the last byte was started and before it was fetched; the master
NACKed that byte and no other; and the caller has the bytes. -/
def ReadDelivers (s s' : Fx2) (len : Nat) (data : Mem Byte) : Prop :=
  ∃ bs p ext, s'.trace = s.trace ++ ext ∧ EndsRead bs p ext ∧
    receptions ext = bs.map (·, false) ++ [(p, true)] ∧
    bs.length + 1 = len + s.pecEnabled.toNat ∧ data.read 0 len = (bs ++ [p]).take len

section

variable {T : Target} {way : Nat → Delivery} {s s' : Fx2} {f : Nat → Byte} {len : Nat}
  {bl l : Nat → Bool}

theorem receptions_turns {n : Nat} (hbl : ∀ i < n, bl i = false) (hl : ∀ i < n, l i = false) :
    receptions (turns f bl l n) = (List.range n).map fun i => (f (i + 1), false) := by
  induction n with
  | zero => rfl
  | succ n ih =>
    rw [turns, receptions_append, ih (fun i hi => hbl i (by omega)) (fun i hi => hl i (by omega)),
      List.range_succ, List.map_append]
    simp [turnEvents, askEvents, hbl n (by omega), hl n (by omega), receptions]

/-- LASTRD is only set in a turn with its flag. -/
theorem lastrd_not_mem_turns {n : Nat} (hbl : ∀ i < n, bl i = false) :
    Event.lastrd ∉ turns f bl l n := by
  induction n with
  | zero => simp [turns]
  | succ n ih =>
    rw [turns, List.mem_append, not_or]
    refine ⟨ih fun i hi => hbl i (by omega), ?_⟩
    simp only [turnEvents, askEvents, hbl n (by omega)]
    split <;> simp

/-- The last byte has a turn before it in its request. -/
theorem Ended.delivers (h : Ended s f len s') (hlen : 0 < len) (hbit : s.lastrdBit = false)
    (hmany : s.pecEnabled = true ∨ len % 64 ≠ 1) (data : Mem Byte) :
    ReadDelivers s s' len (data.write 0 (Mem.read f 0 len)) := by
  have hnot : alone s.pecEnabled len = false := by
    rcases hmany with hon | hmod
    · simp [alone, hon]
    · simp [alone, hmod]
  have hturns : readTurns s.pecEnabled true len = len + s.pecEnabled.toNat := by simp [readTurns]
  obtain ⟨n, hn⟩ : ∃ n, readTurns s.pecEnabled true len = n + 2 := by
    refine ⟨len + s.pecEnabled.toNat - 2, ?_⟩
    rw [hturns]
    rcases hmany with hon | hmod
    · rw [hon, Bool.toNat_true]
      omega
    · omega
  have hbl : ∀ i, readBeforeLast s.pecEnabled len i = (i + 2 == n + 2) := by
    intro i
    rw [readBeforeLast, hn, hnot, Bool.not_false, Bool.and_true]
  have hl : ∀ i, readLast s.pecEnabled len i = (i + 1 == n + 2) := by
    intro i
    rw [readLast, hn]
  have hbl' : ∀ i < n, readBeforeLast s.pecEnabled len i = false := by
    intro i hi
    rw [hbl]
    simp
    omega
  have hl' : ∀ i < n, readLast s.pecEnabled len i = false := by
    intro i hi
    rw [hl]
    simp
    omega
  obtain ⟨pre, hpre⟩ : ∃ pre, pre = [.fetch s.i2dat, .recv (f 0) false] ++
      turns f (readBeforeLast s.pecEnabled len) (readLast s.pecEnabled len) n := ⟨_, rfl⟩
  have hplain : ∀ e, (e = Event.lastrd ∨ e = Event.stop) → e ∉ pre := by
    intro e he hmem
    rw [hpre, List.mem_append] at hmem
    rcases hmem with hmem | hmem
    · rcases he with rfl | rfl <;> simp at hmem
    · rcases mem_turns_plain hbl' hl' hmem with ⟨b, rfl⟩ | ⟨b, rfl⟩ <;> simp at he
  have hread : Mem.read f 0 (n + 1) = f 0 :: (List.range n).map fun i => f (i + 1) := by
    simp [Mem.read, List.range_succ_eq_map]
  refine ⟨Mem.read f 0 (n + 1), f (n + 1), pre ++ [.lastrd, .fetch (f n), .recv (f (n + 1)) true,
    .stop, .fetch (f (n + 1))], ?_, ⟨pre, f n, rfl, ?_, hplain _ (.inl rfl), hplain _ (.inr rfl)⟩,
    ?_, ?_, ?_⟩
  · rw [h.trace, readTrace, hn, turns_end hbl hl, hpre, hbit]
    simp
  · rw [hpre, recvBytes_append, recvBytes_turns hl' le_rfl, hread]
    rfl
  · rw [hpre, receptions_append, receptions_append, receptions_turns hbl' hl', hread]
    simp [receptions]
  · rw [Mem.length_read, ← hturns, hn]
  · have hall : Mem.read f 0 (n + 1) ++ [f (n + 1)] = Mem.read f 0 (n + 2) := by
      rw [Mem.read_succ f 0 (n + 1), Nat.zero_add]
    have hlen' := Mem.read_write data 0 (Mem.read f 0 len)
    rw [Mem.length_read] at hlen'
    rw [hlen', hall, Mem.take_read, Nat.min_eq_left (by omega)]

/-- The last byte is alone in its request: LASTRD is never set. -/
theorem Ended.not_delivers (h : Ended s f len s') (halone : alone s.pecEnabled len = true)
    (data : Mem Byte) : ¬ ReadDelivers s s' len data := by
  rintro ⟨bs, p, ext, htrace, ⟨pre, x, hext, -⟩, -⟩
  have hmem : Event.lastrd ∈ ext := by
    rw [hext]
    simp
  rw [h.trace, readTrace, List.append_assoc] at htrace
  rw [← List.append_cancel_left htrace, List.mem_append] at hmem
  rcases hmem with hmem | hmem
  · simp at hmem
  · refine lastrd_not_mem_turns (fun i _ => ?_) hmem
    rw [readBeforeLast, halone, Bool.not_true, Bool.and_false]

end

/-! ## The call -/

section

variable {T : Target} {way : Nat → Delivery} {s : Fx2} {len : Nat}

/-- A read of one byte without a PEC. -/
theorem readDelivers_one (hT : Responsive T) (hdel : ∀ k, (way k).fate = .delivered)
    (hoff : s.pecEnabled = false) {lastRead : Byte} (hlast : lastRead ≠ 0) (status : Int)
    (data : Mem Byte) :
    let r := Fx2lp.read (usb T way) status 1 data lastRead ⟨s, 0⟩
    ReadDelivers s r.2.2.fx2 1 r.2.1 := by
  intro r
  obtain ⟨b', x, hrun, htrace⟩ :=
    readSingle_run (s := s.tick (way 0).gap) loopFuel hT (by decide) hoff
  obtain ⟨s', hs'⟩ : ∃ s' : Fx2, s' =
      { (s.tick (way 0).gap).readSoFar (fun _ => x) 0 1 1 b' with ep0bcl := 1 } := ⟨_, rfl⟩
  rw [← hs'] at hrun
  have hserve : serve T smbRead ⟨1, (readFlags true true).setWidth 16⟩ (s.tick (way 0).gap) =
      (true, s') := serve_of_run smbRead hrun
  have hreply : s'.reply 1 = [x] := by
    have h := Mem.read_write s.ep0buf 0 [x]
    rw [hs']
    exact h
  have hinp : (usb T way).inp smbRead ⟨BitVec.ofNat 16 1, (readFlags true true).setWidth 16⟩ 1
      ⟨s, 0⟩ = ((1, [x]), ⟨s', 1⟩) := by
    change (usb T way).inp smbRead ⟨1, _⟩ 1 ⟨s, 0⟩ = _
    simp only [usb, hdel 0, hserve, hreply, if_true]
    rfl
  have hr : r = (1, data.write 0 [x], ⟨s', 1⟩) := by
    have hflags : readCmdFirstRead ||| readCmdLastRead = readFlags true true := rfl
    simp only [r, Fx2lp.read, Nat.reduceDiv, Nat.zero_mul, Nat.sub_zero, readWhole, Nat.lt_one_iff,
      if_true, hlast, ne_eq, not_false_eq_true, hflags, hinp]
  rw [hr]
  refine ⟨[], x, [.lastrd, .fetch s.i2dat, .recv x true, .stop, .fetch x], ?_,
    ⟨[], s.i2dat, rfl, rfl, by simp, by simp⟩, rfl, ?_, ?_⟩
  · rw [hs']
    exact htrace
  · rw [hoff]
    rfl
  · exact Mem.read_write data 0 [x]

/-- A read whose last byte is alone in its request, behind other requests. -/
theorem not_readDelivers_alone (hT : Responsive T) (hdel : ∀ k, (way k).fate = .delivered)
    (hoff : s.pecEnabled = false) (hmod : len % 64 = 1) (hne : len ≠ 1) {lastRead : Byte}
    (hlast : lastRead ≠ 0) (status : Int) (data : Mem Byte) :
    let r := Fx2lp.read (usb T way) status len data lastRead ⟨s, 0⟩
    ¬ ReadDelivers s r.2.2.fx2 len r.2.1 := by
  intro r
  obtain ⟨f, hs⟩ := exists_sends T s len
  obtain ⟨l', status', hended, hread⟩ :=
    read_usb (l := ⟨s, 0⟩) hT hs hdel (by omega) (.inr hne) hlast
    status data
  have hr : r = _ := hread
  rw [hr]
  exact hended.not_delivers (by simp [alone, hoff, hmod]) _

/-- With a responsive target, an arbitrary read to its end is done exactly when its last
byte is not alone in its request. -/
theorem readDelivers_iff (hT : Responsive T) (hdel : ∀ k, (way k).fate = .delivered)
    (hlen : 1 ≤ len) {lastRead : Byte} (hlast : lastRead ≠ 0) (hbit : s.lastrdBit = false)
    (status : Int) (data : Mem Byte) :
    let r := Fx2lp.read (usb T way) status len data lastRead ⟨s, 0⟩
    ReadDelivers s r.2.2.fx2 len r.2.1 ↔ s.pecEnabled = true ∨ len = 1 ∨ len % 64 ≠ 1 := by
  intro r
  by_cases hmany : s.pecEnabled = true ∨ len % 64 ≠ 1
  · obtain ⟨f, hs⟩ := exists_sends T s len
    have hone : s.pecEnabled = true ∨ len ≠ 1 := hmany.imp_right fun hmod h => hmod (by rw [h])
    obtain ⟨l', status', hended, hread⟩ := read_usb (l := ⟨s, 0⟩) hT hs hdel hlen hone hlast
      status data
    have hr : r = _ := hread
    rw [hr]
    exact iff_of_true (hended.delivers hlen hbit hmany data) (hmany.imp_right .inr)
  rw [not_or, not_not, Bool.not_eq_true] at hmany
  obtain ⟨hoff, hmod⟩ := hmany
  by_cases hone : len = 1
  · subst hone
    exact iff_of_true (readDelivers_one hT hdel hoff hlast status data) (.inr (.inl rfl))
  · refine iff_of_false (not_readDelivers_alone hT hdel hoff hmod hone hlast status data) ?_
    simp [hoff, hone, hmod]

end

theorem readDelivers_seventy :
    let r := Fx2lp.read (usb (.answers [7, 8, 9]) (Delivery.all 0))
      0 70 (fun _ => 0) 1 ⟨Fx2.init, 0⟩
    ReadDelivers Fx2.init r.2.2.fx2 70 r.2.1 :=
  (readDelivers_iff (responsive_answers _) (Delivery.all_delivered 0) (by decide) (by decide) rfl 0
    fun _ => 0).mpr (.inl rfl)

/-- The master ACKs the last of 65 bytes when the PEC is off. -/
theorem not_readDelivers_sixtyfive :
    let s := { Fx2.init with pecEnabled := false }
    let r := Fx2lp.read (usb (.answers [7, 8, 9]) (Delivery.all 0)) 0 65 (fun _ => 0) 1 ⟨s, 0⟩
    ¬ ReadDelivers s r.2.2.fx2 65 r.2.1 :=
  not_readDelivers_alone (responsive_answers _) (Delivery.all_delivered 0) rfl (by decide)
    (by decide) (by decide) 0 fun _ => 0

end Smbusb
