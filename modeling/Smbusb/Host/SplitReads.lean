import Smbusb.Host.TransactionRead

/-!
# Reads that are split

What two calls of `SMBRead`, of which only the second is marked as the last, get of the bytes a
target streams, compared with one call for all of them.

*Streams.*  The target sends its bytes in order whatever the master does (`Streams`), and in time.
So the flags of `i2c_bytein` do not matter for what it hands over (`bytein_streams`), and all
there is to know about the bus is which byte comes next (`NextIs`): the first one the target
sends when the call is marked as the first, the one in `I2DAT` otherwise.

*Calls.*  The driver marks the first request of every call, so the second call begins anew.  It
discards the byte the first one has received ahead, and gets the stream from the byte behind it
on (`splitsAlike_iff`).
-/

namespace Smbusb

open Logic Prog Fw Handler Fx2lp

/-! ## Streams -/

/-- Byte 0 of the stream comes next: it is the first one the target sends when the read begins,
and has been received already when it goes on. -/
def NextIs (T : Target) (first : Bool) (f : Nat → Byte) (b : I2c) : Prop :=
  if first then Streams T b.trace f
  else b.i2dat = f 0 ∧ Streams T b.trace fun k => f (k + 1)

section

variable {T : Target} {f : Nat → Byte} {b : I2c}

/-- Other events do not disturb a stream. -/
theorem Streams.log {tr : List Event} (h : Streams T tr f) {e : Event} (he : recvBytes [e] = []) :
    Streams T (tr ++ [e]) f := by
  intro ext
  rw [List.append_assoc, h, recvBytes_append, he, List.nil_append]

theorem Streams.recv {tr : List Event} (h : Streams T tr f) (x : Byte) (nacked : Bool) :
    Streams T (tr ++ [.recv x nacked]) fun k => f (k + 1) := by
  intro ext
  have hone : recvBytes [.recv x nacked] = [x] := rfl
  rw [List.append_assoc, h, recvBytes_append, hone, List.length_append, Nat.add_comm]
  rfl

theorem Streams.setLastrd (h : Streams T b.trace f) : Streams T b.setLastrd.trace f :=
  Streams.log h rfl

theorem Streams.fetch (h : Streams T b.trace f) : Streams T b.fetch.trace f := Streams.log h rfl

/-- The wait for the next byte. -/
theorem awaitByte_streams (hT : Responsive T) (h : Streams T b.trace f) :
    ∃ b', b.awaitByte T = (true, b') ∧ NextIs T false f b' := by
  obtain ⟨b', hrun, hdat, -, htrace⟩ := awaitByte_of_responsive hT b
  refine ⟨b', hrun, ?_, ?_⟩
  · rw [hdat, ← List.append_nil b.trace, h]
    rfl
  · rw [htrace]
    exact h.recv _ _

theorem NextIs.setLastrd {first : Bool} (h : NextIs T first f b) :
    NextIs T first f b.setLastrd := by
  cases first with
  | true => exact Streams.setLastrd h
  | false => exact ⟨h.1, Streams.setLastrd h.2⟩

/-- The second half hands over the byte in `I2DAT`. -/
theorem byteinRest_streams (hT : Responsive T) (h : NextIs T false f b) (beforeLast last : Bool) :
    ∃ b', i2cByteinRest T beforeLast last b = (f 0, b') ∧
      (last = false → NextIs T false (fun k => f (k + 1)) b') := by
  have hstop : NextIs T false f (if last then b.log .stop else b) := by
    cases last with
    | true => exact ⟨h.1, Streams.log h.2 rfl⟩
    | false => exact h
  have hlastrd : NextIs T false f (if beforeLast then (if last then b.log .stop else b).setLastrd
      else if last then b.log .stop else b) := by
    cases beforeLast with
    | true => exact hstop.setLastrd
    | false => exact hstop
  simp only [i2cByteinRest]
  generalize (if beforeLast then (if last then b.log .stop else b).setLastrd
      else if last then b.log .stop else b) = c at hlastrd ⊢
  obtain ⟨hdat, hstream⟩ := hlastrd
  cases last with
  | true =>
      have hshows := hT.stopShows c.fetch.trace
      refine ⟨{ c.fetch with count := BitVec.ofNat 16 (T.stopShows c.fetch.trace) }, ?_,
        fun h => Bool.noConfusion h⟩
      simp only [if_true, I2c.await, hshows, hdat]
  | false =>
      obtain ⟨b', hrun, hnext⟩ := awaitByte_streams hT (Streams.fetch hstream)
      refine ⟨b', ?_, fun _ => hnext⟩
      simp only [Bool.false_eq_true, if_false, hrun, hdat]

/-- A call of `i2c_bytein` hands over the next byte, whatever its flags are, and one that is not
the last receives another. -/
theorem bytein_streams (hT : Responsive T) {first : Bool} (h : NextIs T first f b)
    (single beforeLast last : Bool) :
    ∃ b', i2cBytein T first single beforeLast last b = (f 0, b') ∧
      (last = false → NextIs T false (fun k => f (k + 1)) b') := by
  have hlastrd : NextIs T first f (if single then b.setLastrd else b) := by
    cases single with
    | true => exact h.setLastrd
    | false => exact h
  simp only [i2cBytein]
  generalize (if single then b.setLastrd else b) = c at hlastrd ⊢
  cases first with
  | true =>
      obtain ⟨c', hrun, hnext⟩ := awaitByte_streams hT (Streams.fetch hlastrd)
      rw [if_pos rfl, hrun]
      exact byteinRest_streams hT hnext beforeLast last
  | false => exact byteinRest_streams hT hlastrd beforeLast last

end

/-! ## One request -/

section

variable {T : Target} {f : Nat → Byte} {s : Fx2} {n : Nat}

/-- A request of `n` bytes gets the next bytes of the stream. -/
theorem read_streams (hT : Responsive T) {fuel : Nat} (hfuel : 66 ≤ fuel) (h1 : 0 < n)
    (hn : n ≤ 64) {first : Bool} (hnext : NextIs T first f s.toI2c) (last : Bool) :
    ∃ b' : I2c, Handler.read T fuel (BitVec.ofNat 16 n) ((readFlags first last).setWidth 16) s =
        .ok true { s.readSoFar f 0 n (readTurns s.pecEnabled last n) b' with
          ep0bcl := BitVec.ofNat 8 n } ∧
      (last = false → NextIs T false (fun k => f (n + k)) b') := by
  have hle := readTurns_le s.pecEnabled last n
  have hrule := read_run_of_turns (T := T) (s := s) (n := n) first last fuel
    (fun k b => k < readTurns s.pecEnabled last n ∨ last = false →
      NextIs T (first && k == 0) (fun i => f (k + i)) b) f 0 (by omega) hn
  have hnj : last = false → readTurns s.pecEnabled last n = n := by
    rintro rfl
    simp [readTurns]
  generalize readTurns s.pecEnabled last n = j at *
  refine (hrule ?_ fun _ => by simpa using hnext).imp fun b' h => ⟨h.1, fun hno => ?_⟩
  · intro k hk b hb
    obtain ⟨b', hcall, hnext'⟩ := bytein_streams hT (hb (.inl hk)) ((first && k == 0) && j == 1)
      (last && k + 2 == j) (last && k + 1 == j)
    refine ⟨b', by rw [Nat.zero_add]; exact hcall, fun hmore => ?_⟩
    have hgo : (last && k + 1 == j) = false := by
      rw [Bool.and_eq_false_iff]
      rcases hmore with hlt | hno
      · exact .inr (by simp; omega)
      · exact .inl hno
    have hstream := hnext' hgo
    simpa [Nat.add_assoc, Nat.add_comm 1] using hstream
  · have hbegun : (first && n == 0) = false := by
      rw [Bool.and_eq_false_iff]
      exact .inr (by simp; omega)
    have hstream := h.2 (.inr hno)
    rwa [hnj hno, hbegun] at hstream

end

/-! ## One call -/

/-- A read from `s` that has got the first `g` bytes of the stream, the last of them in a request
that was marked when `last`. -/
structure ReadTo (T : Target) (s : Fx2) (f : Nat → Byte) (last : Bool) (g : Nat) (t : Fx2) :
    Prop where
  next : last = false → NextIs T (decide (g = 0)) (fun k => f (g + k)) t.toI2c
  pec : t.mrqPec = pecOver s.pecEnabled (Mem.read f 0 g) s.mrqPec
  pecEnabled : t.pecEnabled = s.pecEnabled
  rcvPec : last = true → s.pecEnabled = true → t.rcvPec = f g

section

variable {T : Target} {way : Nat → Delivery} {s : Fx2} {f : Nat → Byte} {g n : Nat} {l : Link}

theorem readTo_zero (h : NextIs T true f s.toI2c) : ReadTo T s f false 0 s := by
  refine ⟨fun _ => ?_, ?_, rfl, fun h => Bool.noConfusion h⟩
  · simpa using h
  · simp [pecOver]

/-- One request of the read. -/
theorem inp_readTo (hT : Responsive T) (hdel : (way l.sent).fate = .delivered) (h1 : 0 < n)
    (hn : n ≤ 64) (last : Bool) (h : ReadTo T s f false g l.fx2) :
    ∃ l' : Link, (usb T way).inp smbRead
        ⟨BitVec.ofNat 16 n, (readFlags (decide (g = 0)) last).setWidth 16⟩ n l =
          (((n : Int), Mem.read f g n), l') ∧ ReadTo T s f last (g + n) l'.fx2 := by
  obtain ⟨s₁, hs₁⟩ : ∃ s₁, s₁ = l.fx2.tick (way l.sent).gap := ⟨_, rfl⟩
  have hnext : NextIs T (decide (g = 0)) (fun k => f (g + k)) s₁.toI2c := by
    rw [hs₁]
    exact h.next rfl
  have hon : s₁.pecEnabled = s.pecEnabled := by
    rw [hs₁]
    exact h.pecEnabled
  have hpec : s₁.mrqPec = pecOver s.pecEnabled (Mem.read f 0 g) s.mrqPec := by
    rw [hs₁]
    exact h.pec
  obtain ⟨b', hrun, hgo⟩ := read_streams hT (show 66 ≤ loopFuel by decide) h1 hn
    hnext last
  have hmin : min n (readTurns s₁.pecEnabled last n) = n := by
    rw [readTurns]
    omega
  have hpiece : Mem.read (fun k => f (g + k)) 0 n = Mem.read f g n :=
    Mem.read_congr fun i _ => by rw [Nat.zero_add]
  obtain ⟨s', hs'⟩ : ∃ s' : Fx2, s' = { s₁.readSoFar (fun k => f (g + k)) 0 n
    (readTurns s₁.pecEnabled last n) b' with ep0bcl := BitVec.ofNat 8 n } := ⟨_, rfl⟩
  rw [← hs'] at hrun
  have hserve : serve T smbRead ⟨BitVec.ofNat 16 n,
      (readFlags (decide (g = 0)) last).setWidth 16⟩ (l.fx2.tick (way l.sent).gap) =
        (true, s') := by
    rw [← hs₁]
    exact serve_of_run smbRead hrun
  have hreply : s'.reply n = Mem.read f g n := by
    have hlen : min (BitVec.ofNat 8 n).toNat n = (Mem.read f g n).length := by
      simp
      omega
    rw [hs', Fx2.reply]
    simp only [Fx2.readSoFar, hmin, hpiece]
    rw [hlen, Mem.read_write]
  refine ⟨⟨s', l.sent + 1⟩, ?_, ?_, ?_, ?_, ?_⟩
  · simp only [usb, hdel, hserve, hreply, if_true, Mem.length_read]
  · intro hlast
    have hbegun : decide (g + n = 0) = false := by
      rw [decide_eq_false_iff_not]
      omega
    rw [hbegun, hs']
    simpa [Fx2.readSoFar, Nat.add_assoc] using hgo hlast
  · rw [hs']
    simp only [Fx2.readSoFar, hmin, hpiece]
    rw [hpec, hon, ← pecOver_append, Mem.read_add, Nat.zero_add]
  · rw [hs']
    exact hon
  · intro hlast hpecOn
    have hmore : n < readTurns s₁.pecEnabled last n := by
      rw [readTurns, hon, hpecOn, hlast]
      simp
    rw [hs']
    simp only [Fx2.readSoFar, hmore, if_true, Nat.zero_add]

/-- The loop of the driver, from chunk `i` on. -/
theorem readWhole_readTo (hT : Responsive T) (hdel : ∀ k, (way k).fate = .delivered)
    (lastRead : Byte) (remainder : Nat) {wholeReads left i : Nat} (hsum : i + left = wholeReads)
    (status : Int) (data : Mem Byte) (h : ReadTo T s f false (i * 64) l.fx2) :
    ∃ (l' : Link) (status' : Int) (last : Bool),
      readWhole (usb T way) lastRead wholeReads remainder left i
        (readFlags (decide (i * 64 = 0)) false) status data l =
          (.ok (readFlags (decide (wholeReads * 64 = 0)) last, status'),
            data.write (i * 64) (Mem.read f (i * 64) (left * 64)), l') ∧
      ReadTo T s f last (wholeReads * 64) l'.fx2 ∧
      (last = true ↔ lastRead ≠ 0 ∧ 0 < left ∧ remainder = 0) := by
  induction left generalizing i status data l with
  | zero =>
      obtain rfl : i = wholeReads := hsum
      exact ⟨l, status, false, by simp [readWhole], h, by simp⟩
  | succ left ih =>
      have hnext : i * 64 + 64 = (i + 1) * 64 := by omega
      have hbegun : decide ((i + 1) * 64 = 0) = false := by simp
      have hread : Mem.read f (i * 64) ((left + 1) * 64) =
          Mem.read f (i * 64) 64 ++ Mem.read f ((i + 1) * 64) (left * 64) := by
        rw [show (left + 1) * 64 = 64 + left * 64 by omega, Mem.read_add, hnext]
      by_cases hend : lastRead ≠ 0 ∧ i + 1 = wholeReads ∧ remainder = 0
      · obtain ⟨hlast, rfl, hrem⟩ := hend
        obtain rfl : left = 0 := by omega
        obtain ⟨l', hinp, hto⟩ := inp_readTo (n := 64) hT (hdel l.sent) (by omega) le_rfl true h
        change (usb T way).inp smbRead ⟨64, _⟩ 64 l = ((64, _), l') at hinp
        rw [hnext] at hto
        refine ⟨l', 64, true, ?_, hto, iff_of_true rfl ⟨hlast, Nat.one_pos, hrem⟩⟩
        rw [hbegun, readWhole]
        simp only [hlast, hrem, ne_eq, not_false_eq_true, and_self, if_true, readFlags_last, hinp,
          Int.lt_irrefl, if_false, readWhole, readFlags_clear]
      · obtain ⟨l₁, hinp, hto⟩ := inp_readTo (n := 64) hT (hdel l.sent) (by omega) le_rfl false h
        change (usb T way).inp smbRead ⟨64, _⟩ 64 l = ((64, _), l₁) at hinp
        rw [hnext] at hto
        obtain ⟨l', status', last, hrest, hto', hlast⟩ := ih (l := l₁) (i := i + 1) (by omega) 64
          (data.write (i * 64) (Mem.read f (i * 64) 64)) hto
        have hwrite := Mem.write_append data (i * 64) (Mem.read f (i * 64) 64)
          (Mem.read f ((i + 1) * 64) (left * 64))
        rw [Mem.length_read, hnext] at hwrite
        refine ⟨l', status', last, ?_, hto', hlast.trans ?_⟩
        · rw [hread, ← hwrite, ← hrest, readWhole]
          simp only [hend, if_false, hinp, readFlags_clear, hbegun]
          rfl
        · refine and_congr_right fun h0 => and_congr_left fun hrem => ?_
          refine iff_of_true ?_ (Nat.succ_pos _)
          exact Nat.pos_of_ne_zero fun hleft => hend ⟨h0, by omega, hrem⟩

/-- A call for `len` bytes. -/
theorem read_readTo (hT : Responsive T) (hdel : ∀ k, (way k).fate = .delivered) {len : Nat}
    (hlen : 0 < len) (lastRead : Byte) (status : Int) (data : Mem Byte)
    (h : NextIs T true f l.fx2.toI2c) :
    ∃ (l' : Link) (status' : Int), Fx2lp.read (usb T way) status len data lastRead l =
        (status', data.write 0 (Mem.read f 0 len), l') ∧
      ReadTo T l.fx2 f (decide (lastRead ≠ 0)) len l'.fx2 := by
  have hzero : ReadTo T l.fx2 f false (0 * 64) l.fx2 := readTo_zero h
  have hflags : readFlags (decide (0 * 64 = 0)) false = readCmdFirstRead := rfl
  simp only [Fx2lp.read]
  generalize hw : len / 64 = wholeReads
  have hmul : wholeReads * 64 ≤ len := by omega
  generalize hrem : len - wholeReads * 64 = remainder
  obtain ⟨l₁, status₁, last, hloop, hto, hlast⟩ := readWhole_readTo hT hdel lastRead
    remainder (Nat.zero_add wholeReads) status data hzero
  rw [hflags, Nat.zero_mul] at hloop
  rw [hloop]
  rcases Nat.eq_zero_or_pos remainder with rfl | hpos
  · obtain rfl : wholeReads * 64 = len := by omega
    have hsame : last = decide (lastRead ≠ 0) := by
      rw [Bool.eq_iff_iff, hlast, decide_eq_true_eq]
      exact and_iff_left ⟨by omega, rfl⟩
    rw [← hsame]
    exact ⟨l₁, status₁, by simp only [Nat.lt_irrefl, if_false], hto⟩
  · obtain rfl : last = false := by
      rw [Bool.eq_false_iff]
      intro h
      exact Nat.ne_of_gt hpos (hlast.mp h).2.2
    obtain ⟨l', hinp, hto'⟩ := inp_readTo hT (hdel l₁.sent) hpos (by omega)
      (decide (lastRead ≠ 0)) hto
    have hall : wholeReads * 64 + remainder = len := by omega
    rw [hall] at hto'
    refine ⟨l', remainder, ?_, hto'⟩
    have hmark : (if lastRead ≠ 0 then readFlags (decide (wholeReads * 64 = 0)) false |||
        readCmdLastRead else readFlags (decide (wholeReads * 64 = 0)) false) =
        readFlags (decide (wholeReads * 64 = 0)) (decide (lastRead ≠ 0)) := by
      by_cases h0 : lastRead ≠ 0
      · rw [if_pos h0, readFlags_last, decide_eq_true h0]
      · rw [if_neg h0, decide_eq_false h0]
    simp only [hpos, if_true, hmark, hinp]
    rw [write_read_append, hall]

end

/-! ## Two calls -/

/-- Two calls, for `a` bytes and for the `b` bytes behind them, give the caller the bytes and the
packet error codes of one call for all of them. -/
def SplitsAlike (T : Target) (way way₁ way₂ : Nat → Delivery) (status : Int) (s : Fx2) (a b : Nat)
    (buf : Mem Byte) : Prop :=
  let whole := Fx2lp.read (usb T way) status (a + b) buf 1 ⟨s, 0⟩
  let first := Fx2lp.read (usb T way₁) status a buf 0 ⟨s, 0⟩
  let second := Fx2lp.read (usb T way₂) status b (fun i => first.2.1 (a + i)) 1
    ⟨first.2.2.fx2, 0⟩
  first.2.1.read 0 a ++ second.2.1.read 0 b = whole.2.1.read 0 (a + b) ∧
    (s.pecEnabled = true → second.2.2.fx2.mrqPec = whole.2.2.fx2.mrqPec ∧
      second.2.2.fx2.rcvPec = whole.2.2.fx2.rcvPec)

/-- A read that is split gets what one call gets exactly when the stream does not change from
byte `a` on: the second call discards the byte that the first has received ahead. -/
theorem splitsAlike_iff {T : Target} {way way₁ way₂ : Nat → Delivery} {s : Fx2} {f : Nat → Byte}
    {a b : Nat} (hT : Responsive T) (hf : Streams T s.trace f)
    (hdel : ∀ k, (way k).fate = .delivered) (hdel₁ : ∀ k, (way₁ k).fate = .delivered)
    (hdel₂ : ∀ k, (way₂ k).fate = .delivered) (ha : 1 ≤ a) (hb : 1 ≤ b) (status : Int)
    (buf : Mem Byte) :
    SplitsAlike T way way₁ way₂ status s a b buf ↔
      ∀ k < b + s.pecEnabled.toNat, f (a + k + 1) = f (a + k) := by
  obtain ⟨l, _, hwhole, hto⟩ := read_readTo (l := ⟨s, 0⟩) hT hdel
    (Nat.add_pos_left ha b) 1 status buf hf
  obtain ⟨l₁, _, hfirst, hto₁⟩ := read_readTo (l := ⟨s, 0⟩) hT hdel₁ ha 0 status buf hf
  have hahead : NextIs T false (fun k => f (a + k)) l₁.fx2.toI2c := by
    have h := hto₁.next rfl
    rwa [decide_eq_false (Nat.ne_of_gt ha)] at h
  have hrest : NextIs T true (fun k => f (a + k + 1)) l₁.fx2.toI2c := hahead.2
  obtain ⟨l₂, _, hsecond, hto₂⟩ := read_readTo (l := ⟨l₁.fx2, 0⟩) hT hdel₂ hb 1 status
    (fun i => buf.write 0 (Mem.read f 0 a) (a + i)) hrest
  have hread : ∀ (m : Mem Byte) (g : Nat → Byte) (n : Nat),
      (m.write 0 (Mem.read g 0 n)).read 0 n = Mem.read g 0 n := by
    intro m g n
    have h := Mem.read_write m 0 (Mem.read g 0 n)
    rwa [Mem.length_read] at h
  have hbytes : Mem.read f 0 a ++ Mem.read (fun k => f (a + k + 1)) 0 b = Mem.read f 0 (a + b) ↔
      ∀ k < b, f (a + k + 1) = f (a + k) := by
    rw [Mem.read_add, List.append_cancel_left_eq, Nat.zero_add, Mem.read_eq_iff]
    simp only [Nat.zero_add]
  simp only [SplitsAlike, hwhole, hfirst, hsecond, hread]
  rw [hbytes]
  have hon₁ : l₁.fx2.pecEnabled = s.pecEnabled := hto₁.pecEnabled
  cases hon : s.pecEnabled with
  | false => simp
  | true =>
      have hrcv : l.fx2.rcvPec = f (a + b) := hto.rcvPec rfl hon
      have hrcv₂ : l₂.fx2.rcvPec = f (a + b + 1) := hto₂.rcvPec rfl (hon₁.trans hon)
      have hpec₂ : l₂.fx2.mrqPec = pecOver s.pecEnabled
          (Mem.read f 0 a ++ Mem.read (fun k => f (a + k + 1)) 0 b) s.mrqPec := by
        rw [hto₂.pec, hto₁.pec, hon₁, pecOver_append]
      rw [hrcv, hrcv₂, hpec₂, hto.pec]
      constructor
      · rintro ⟨hsame, hpecs⟩ k hk
        rcases Nat.lt_or_eq_of_le (Nat.le_of_lt_succ hk) with hlt | rfl
        · exact hsame k hlt
        · exact (hpecs rfl).2
      · intro hall
        have hsame : ∀ k < b, f (a + k + 1) = f (a + k) := fun k hk => hall k (Nat.lt_succ_of_lt hk)
        refine ⟨hsame, fun _ => ⟨?_, hall b (Nat.lt_succ_self b)⟩⟩
        rw [hbytes.mpr hsame]

/-- A stream that stays the same lets itself be split. -/
theorem splitsAlike_constant : SplitsAlike (Target.answers [7, 8, 8, 8, 8]) (Delivery.all 0)
    (Delivery.all 0) (Delivery.all 0) 0 Fx2.init 1 2 fun _ => 0 := by
  refine (splitsAlike_iff (responsive_answers _) (streams_answers _ rfl) (Delivery.all_delivered 0)
    (Delivery.all_delivered 0) (Delivery.all_delivered 0) (by decide) (by decide) 0 _).mpr ?_
  intro k hk
  have hon : Fx2.init.pecEnabled.toNat = 1 := rfl
  have hk3 : k < 3 := by omega
  match k, hk3 with
  | 0, _ => rfl
  | 1, _ => rfl
  | 2, _ => rfl

/-- The second of two calls for one byte each skips a byte. -/
theorem not_splitsAlike_two : ¬ SplitsAlike (Target.answers [1, 2, 3]) (Delivery.all 0)
    (Delivery.all 0) (Delivery.all 0) 0 { Fx2.init with pecEnabled := false } 1 1 fun _ => 0 := by
  rintro ⟨h, -⟩
  revert h
  decide +kernel

end Smbusb
