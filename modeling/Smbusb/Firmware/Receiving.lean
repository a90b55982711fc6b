import Smbusb.Firmware.Sending

/-!
# Receiving bytes

A read is pipelined by one byte: the read of `I2DAT` that hands over one byte starts
the next.  So what a call of `i2c_bytein` does depends on the bits set before it, and
a run of calls is described turn by turn.

*Turns.*  `turnEvents f beforeLast last i` is what the turn for byte `i` does on the
bus, when the target sends the bytes `f 0, f 1, ..`, and `turns` is a run of them.
`i2cBytein_turn` says that a call of `i2c_bytein` is one turn.

*Streams.*  `Follows T tr f beforeLast` says that the target, from the trace `tr` on,
answers the turns with the bytes of `f`.  Every target follows some stream
(`exists_follows`), so nothing is lost by fixing the stream first.  `Streams` is the
case of a target that sends its bytes in order whatever the master does.

A target is `Responsive` when no wait for a byte runs into the timeout.
-/

namespace Smbusb

open Logic Prog

/-! ## Nothing sent -/

/-- What happened between two states has no byte sent. -/
def Quiet (s s' : I2c) : Prop := ∃ ext, Extends s ext s' ∧ sentBytes ext = []

theorem Quiet.refl (s : I2c) : Quiet s s := ⟨[], Extends.refl s, rfl⟩

theorem Quiet.trans {s s' s'' : I2c} (h : Quiet s s') (h' : Quiet s' s'') : Quiet s s'' := by
  obtain ⟨ext, hext, hnil⟩ := h
  obtain ⟨ext', hext', hnil'⟩ := h'
  exact ⟨ext ++ ext', hext.trans hext', by rw [sentBytes_append, hnil, hnil']; rfl⟩

/-! ## Any target -/

section

variable (T : Target)

theorem quiet_log {s : I2c} {e : Event} (h : sentBytes [e] = []) : Quiet s (s.log e) :=
  ⟨[e], rfl, h⟩

theorem quiet_stop (s : I2c) : Quiet s (i2cStop T s) := ⟨[.stop], i2cStop_extends T s, rfl⟩

theorem quiet_setLastrd (s : I2c) : Quiet s s.setLastrd := ⟨[.lastrd], rfl, rfl⟩

theorem quiet_await (delay : Nat) (s : I2c) : Quiet s (s.await delay).2 :=
  ⟨[], by simp [Extends], rfl⟩

theorem quiet_awaitByte (s : I2c) : Quiet s (s.awaitByte T).2 := by
  by_cases h : (T.recv s.trace).1 ≤ i2cTimeout
  · exact ⟨[.recv (T.recv s.trace).2 s.lastrdBit], by simp [I2c.awaitByte, I2c.await, h, Extends],
      rfl⟩
  · exact ⟨[.lost], by simp [I2c.awaitByte, I2c.await, h, Extends], rfl⟩

theorem quiet_byteinRest (isBeforeLast isLast : Bool) (s : I2c) :
    Quiet s (i2cByteinRest T isBeforeLast isLast s).2 := by
  have h1 : Quiet s (if isLast then s.log .stop else s) := by
    split
    · exact quiet_log rfl
    · exact Quiet.refl s
  generalize hs₁ : (if isLast then s.log .stop else s) = s₁ at h1
  have h2 : Quiet s₁ (if isBeforeLast then s₁.setLastrd else s₁) := by
    split
    · exact quiet_setLastrd s₁
    · exact Quiet.refl s₁
  generalize hs₂ : (if isBeforeLast then s₁.setLastrd else s₁) = s₂ at h2
  have h3 : Quiet s s₂.fetch := (h1.trans h2).trans (quiet_log rfl)
  have h4 : Quiet s (if isLast then s₂.fetch.await (T.stopShows s₂.fetch.trace)
      else s₂.fetch.awaitByte T).2 := by
    split
    · exact h3.trans (quiet_await _ _)
    · exact h3.trans (quiet_awaitByte T _)
  simp only [i2cByteinRest, hs₁, hs₂]
  generalize (if isLast then s₂.fetch.await (T.stopShows s₂.fetch.trace)
      else s₂.fetch.awaitByte T) = r at h4 ⊢
  obtain ⟨ok, s'⟩ := r
  cases ok with
  | true => exact h4
  | false => exact h4.trans (quiet_stop T s')

/-- Receiving sends nothing, whatever the target does. -/
theorem quiet_bytein (isFirst isSingle isBeforeLast isLast : Bool) (s : I2c) :
    Quiet s (i2cBytein T isFirst isSingle isBeforeLast isLast s).2 := by
  have h1 : Quiet s (if isSingle then s.setLastrd else s) := by
    split
    · exact quiet_setLastrd s
    · exact Quiet.refl s
  generalize hs₁ : (if isSingle then s.setLastrd else s) = s₁ at h1
  have h2 : Quiet s (if isFirst then s₁.fetch.awaitByte T else (true, s₁)).2 := by
    split
    · exact (h1.trans (quiet_log rfl)).trans (quiet_awaitByte T _)
    · exact h1
  simp only [i2cBytein, hs₁]
  generalize (if isFirst then s₁.fetch.awaitByte T else (true, s₁)) = r at h2 ⊢
  obtain ⟨ok, s'⟩ := r
  cases ok with
  | true => exact h2.trans (quiet_byteinRest T _ _ s')
  | false => exact h2.trans (quiet_stop T s')

end

/-! ## Turns -/

/-- The events of a turn up to the byte it starts. -/
def askEvents (f : Nat → Byte) (beforeLast : Bool) (i : Nat) : List Event :=
  if beforeLast then [.lastrd, .fetch (f i)] else [.fetch (f i)]

/-- The events of the turn for byte `i`. -/
def turnEvents (f : Nat → Byte) (beforeLast last : Bool) (i : Nat) : List Event :=
  if last then [.stop, .fetch (f i)] else askEvents f beforeLast i ++ [.recv (f (i + 1)) beforeLast]

/-- The events of the first `k` turns. -/
def turns (f : Nat → Byte) (beforeLast last : Nat → Bool) : Nat → List Event
  | 0 => []
  | k + 1 => turns f beforeLast last k ++ turnEvents f (beforeLast k) (last k) k

/-- From the trace `tr` on, the target answers the first `n` turns with the bytes of
`f`. -/
def Follows (T : Target) (tr : List Event) (f : Nat → Byte) (beforeLast last : Nat → Bool)
    (n : Nat) : Prop :=
  ∀ k < n, (T.recv (tr ++ turns f beforeLast last k ++ askEvents f (beforeLast k) k)).2 = f (k + 1)

/-- From the trace `tr` on, the target sends the bytes of `f` one after the other. -/
def Streams (T : Target) (tr : List Event) (f : Nat → Byte) : Prop :=
  ∀ ext, (T.recv (tr ++ ext)).2 = f (recvBytes ext).length

/-- No wait for a byte, and none for the STOP bit, takes too long. -/
structure Responsive (T : Target) : Prop where
  recv : ∀ tr, (T.recv tr).1 ≤ i2cTimeout
  stopShows : ∀ tr, T.stopShows tr ≤ i2cTimeout

section

variable {T : Target} {f g : Nat → Byte} {beforeLast last : Nat → Bool} {tr : List Event}

theorem turnEvents_congr {bl l : Bool} {i : Nat} (h : f i = g i) (h' : f (i + 1) = g (i + 1)) :
    turnEvents f bl l i = turnEvents g bl l i := by
  simp only [turnEvents, askEvents, h, h']

/-- The first `k` turns show the bytes up to `f k`. -/
theorem turns_congr {k : Nat} (h : ∀ i ≤ k, f i = g i) :
    turns f beforeLast last k = turns g beforeLast last k := by
  induction k with
  | zero => rfl
  | succ k ih =>
      rw [turns, turns, ih fun i hi => h i (by omega),
        turnEvents_congr (h k (by omega)) (h (k + 1) (by omega))]

/-- Every target follows some stream. -/
theorem exists_follows (T : Target) (tr : List Event) (b : Byte) (beforeLast last : Nat → Bool) :
    ∃ f : Nat → Byte, f 0 = b ∧ ∀ n, Follows T tr f beforeLast last n := by
  -- The bytes are found one by one; the ones already found do not change.
  let next (n : Nat) (f : Nat → Byte) : Nat → Byte := Function.update f (n + 1)
    (T.recv (tr ++ turns f beforeLast last n ++ askEvents f (beforeLast n) n)).2
  let bytes : Nat → Nat → Byte := fun n => Nat.rec (fun _ => b) next n
  have hstable : ∀ n i, i ≤ n → ∀ m, n ≤ m → bytes m i = bytes n i := by
    intro n i hi m hm
    induction m, hm using Nat.le_induction with
    | base => rfl
    | succ m hm ih =>
        have : bytes (m + 1) i = bytes m i := Function.update_of_ne (by omega) ..
        rw [this, ih]
  refine ⟨fun i => bytes i i, rfl, fun n k _ => ?_⟩
  have hf : ∀ i ≤ k, bytes i i = bytes k i := fun i hi => (hstable i i (le_refl i) k hi).symm
  have hturns : turns (fun i => bytes i i) beforeLast last k = turns (bytes k) beforeLast last k :=
    turns_congr hf
  have hask : askEvents (fun i => bytes i i) (beforeLast k) k =
      askEvents (bytes k) (beforeLast k) k := rfl
  rw [hturns, hask]
  exact (Function.update_self (k + 1) _ (bytes k)).symm

theorem recvBytes_askEvents (bl : Bool) (i : Nat) : recvBytes (askEvents f bl i) = [] := by
  unfold askEvents
  split <;> rfl

theorem recvBytes_turns {n k : Nat} (hlast : ∀ i < n, last i = false) (hk : k ≤ n) :
    recvBytes (turns f beforeLast last k) = (List.range k).map fun i => f (i + 1) := by
  induction k with
  | zero => rfl
  | succ k ih =>
      rw [turns, recvBytes_append, ih (by omega), List.range_succ, List.map_append]
      have : recvBytes [Event.recv (f (k + 1)) (beforeLast k)] = [f (k + 1)] := rfl
      simp [turnEvents, hlast k (by omega), recvBytes_askEvents, this]

/-- A target that streams its bytes follows the stream, once it has sent the first. -/
theorem Streams.follows (h : Streams T tr f) {n : Nat} (hn : ∀ i < n, last i = false)
    {pre : List Event} (hpre : recvBytes pre = [f 0]) :
    Follows T (tr ++ pre) f beforeLast last n := by
  intro k hk
  rw [List.append_assoc, List.append_assoc, h]
  simp only [recvBytes_append, hpre, recvBytes_turns hn (Nat.le_of_lt hk), recvBytes_askEvents]
  simp

end

theorem responsive_answers (bs : List Byte) : Responsive (Target.answers bs) :=
  ⟨fun _ => Nat.zero_le _, fun _ => Nat.zero_le _⟩

theorem streams_answers (bs : List Byte) {tr : List Event} (h : recvBytes tr = []) :
    Streams (Target.answers bs) tr fun i => bs.getD i 0 := by
  intro ext
  simp [Target.answers, h]

/-! ## The end of a read -/

/-- The bytes `bs` and `p` are received.  LASTRD is set before the fetch that starts the
last byte `p`, STOP before the fetch of `p`, and neither anywhere else. -/
def EndsRead (bs : List Byte) (p : Byte) (ext : List Event) : Prop :=
  ∃ pre x, ext = pre ++ [.lastrd, .fetch x, .recv p true, .stop, .fetch p] ∧
    recvBytes pre = bs ∧ .lastrd ∉ pre ∧ .stop ∉ pre

section

variable {f : Nat → Byte} {beforeLast last : Nat → Bool}

/-- Turns without a flag only fetch and receive. -/
theorem mem_turns_plain {n : Nat} (hbl : ∀ i < n, beforeLast i = false)
    (hlast : ∀ i < n, last i = false) {e : Event} (he : e ∈ turns f beforeLast last n) :
    (∃ b, e = .fetch b) ∨ ∃ b, e = .recv b false := by
  induction n with
  | zero => simp [turns] at he
  | succ n ih =>
      rw [turns, List.mem_append] at he
      rcases he with he | he
      · exact ih (fun i hi => hbl i (by omega)) (fun i hi => hlast i (by omega)) he
      · simp [turnEvents, askEvents, hbl n (by omega), hlast n (by omega)] at he
        rcases he with rfl | rfl
        · exact .inl ⟨_, rfl⟩
        · exact .inr ⟨_, rfl⟩

/-- The two turns with a flag, at the end of the others. -/
theorem turns_end {n : Nat} (hbl : ∀ i, beforeLast i = (i + 2 == n + 2))
    (hlast : ∀ i, last i = (i + 1 == n + 2)) :
    turns f beforeLast last (n + 2) = turns f beforeLast last n ++
      [.lastrd, .fetch (f n), .recv (f (n + 1)) true, .stop, .fetch (f (n + 1))] := by
  have h1 : turnEvents f (beforeLast n) (last n) n =
      [.lastrd, .fetch (f n), .recv (f (n + 1)) true] := by
    simp [turnEvents, askEvents, hbl, hlast]
  have h2 : turnEvents f (beforeLast (n + 1)) (last (n + 1)) (n + 1) =
      [.stop, .fetch (f (n + 1))] := by
    simp [turnEvents, hlast]
  rw [turns, turns, h1, h2, List.append_assoc]
  rfl

end

/-! ## One call -/

/-- Byte `i` of the stream has arrived, and the trace is `tr`. -/
structure Arrived (f : Nat → Byte) (i : Nat) (tr : List Event) (s : I2c) : Prop where
  dat : s.i2dat = f i
  bit : s.lastrdBit = false
  trace : s.trace = tr

section

variable {T : Target} {f : Nat → Byte} {tr : List Event} {s : I2c} {i : Nat}

/-- The wait for a byte that comes in time. -/
theorem awaitByte_of_responsive (hT : Responsive T) (s : I2c) :
    ∃ s', s.awaitByte T = (true, s') ∧ s'.i2dat = (T.recv s.trace).2 ∧ s'.lastrdBit = false ∧
      s'.trace = s.trace ++ [.recv (T.recv s.trace).2 s.lastrdBit] := by
  have h := hT.recv s.trace
  refine ⟨(s.awaitByte T).2, ?_, ?_, ?_, ?_⟩ <;>
    simp only [I2c.awaitByte, I2c.await, h, if_true]

/-- The first call also reads `I2DAT` once to start the first byte. -/
theorem i2cBytein_first (hT : Responsive T) (bl l : Bool) (s : I2c) :
    ∃ s', i2cBytein T true false bl l s = i2cBytein T false false bl l s' ∧
      s'.i2dat = (T.recv (s.trace ++ [.fetch s.i2dat])).2 ∧ s'.lastrdBit = false ∧
      s'.trace = s.trace ++ [.fetch s.i2dat, .recv s'.i2dat s.lastrdBit] := by
  obtain ⟨s', hrun, hdat, hbit, htrace⟩ := awaitByte_of_responsive hT s.fetch
  refine ⟨s', ?_, hdat, hbit, ?_⟩
  · simp [i2cBytein, hrun]
  · rw [htrace, hdat]
    simp [I2c.fetch, I2c.log]

/-- A call that is not the last hands over its byte and receives the next. -/
theorem i2cBytein_turn (hT : Responsive T) (h : Arrived f i tr s) (bl : Bool)
    (hrecv : (T.recv (tr ++ askEvents f bl i)).2 = f (i + 1)) :
    ∃ s', i2cBytein T false false bl false s = (f i, s') ∧
      Arrived f (i + 1) (tr ++ turnEvents f bl false i) s' := by
  have htrace : (if bl then s.setLastrd else s).fetch.trace = tr ++ askEvents f bl i := by
    cases bl <;> simp [I2c.fetch, I2c.setLastrd, I2c.log, askEvents, h.trace, h.dat]
  have hbit : (if bl then s.setLastrd else s).fetch.lastrdBit = bl := by
    cases bl
    · exact h.bit
    · rfl
  have hdat : (if bl then s.setLastrd else s).i2dat = f i := by
    cases bl <;> exact h.dat
  obtain ⟨s', hrun, hdat', hbit', htrace'⟩ :=
    awaitByte_of_responsive hT (if bl then s.setLastrd else s).fetch
  rw [htrace, hrecv] at hdat' htrace'
  refine ⟨s', ?_, hdat', hbit', ?_⟩
  · simp [i2cBytein, i2cByteinRest, hrun, hdat]
  · rw [htrace', hbit]
    simp [turnEvents]

/-- The last call sets STOP, hands over its byte and starts none. -/
theorem i2cBytein_last (hT : Responsive T) (h : Arrived f i tr s) :
    ∃ s', i2cBytein T false false false true s = (f i, s') ∧
      s'.lastrdBit = false ∧ s'.trace = tr ++ turnEvents f false true i := by
  have hstop := hT.stopShows (s.log .stop).fetch.trace
  have hdat : (s.log .stop).i2dat = f i := h.dat
  refine ⟨{ (s.log .stop).fetch with
    count := BitVec.ofNat 16 (T.stopShows (s.log .stop).fetch.trace) }, ?_, h.bit, ?_⟩
  · simp only [i2cBytein, i2cByteinRest, I2c.await, hstop, if_true, Bool.false_eq_true, if_false,
      hdat]
  · simp [I2c.fetch, I2c.log, turnEvents, h.trace, h.dat]

end

end Smbusb
