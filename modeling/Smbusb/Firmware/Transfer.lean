import Smbusb.Firmware.Receiving

/-!
# Reads from a target that may lose bytes

`i2c_bytein` reports a byte that did not come in time as the byte 0, in band.  The
handlers call it once for each byte and go on, so what a read hands over has to be told
apart from what it received.

*Transfers.*  `transfer` is the row of calls a read request makes.  `transfer_whole` says
that, when no byte is lost, the calls hand over what was received, in order; the last one
may still hand over 0 for it, if the STOP bit does not show.  `transfer_received` counts
what is received, a byte less for a loss.

*The bus.*  `busHeld` says whether the master holds the bus after a trace.  The last call
sets STOP behind everything (`transfer_frees`).
-/

namespace Smbusb

open Logic Prog

/-! ## Holding the bus -/

/-- Whether the master holds the bus after an event, given whether it did before.  A START
that showed `BERR` did not take the bus. -/
def Event.holds (held : Bool) : Event → Bool
  | .start berr => held || !berr
  | .restart | .sent _ _ | .recv _ _ | .lost => true
  | .stop => false
  | .lastrd | .fetch _ => held

/-- Whether the master holds the bus after a trace. -/
def busHeld (tr : List Event) : Bool := tr.foldl Event.holds false

/-- The events leave the bus free, however they found it. -/
def Frees (ext : List Event) : Prop := ∀ held, ext.foldl Event.holds held = false

theorem frees_append {ext ext' : List Event} (h : Frees ext') : Frees (ext ++ ext') := by
  intro held
  rw [List.foldl_append]
  exact h _

theorem frees_stop : Frees [.stop] := fun _ => rfl

theorem busHeld_of_frees {tr ext : List Event} (h : Frees ext) : busHeld (tr ++ ext) = false := by
  rw [busHeld, List.foldl_append]
  exact h _

/-! ## One call -/

/-- The byte that is in `I2DAT` before a call: none of use before the first call of a
read, which starts the first byte itself. -/
def waiting (first : Bool) (s : I2c) : List Byte := if first then [] else [s.i2dat]

section

variable (T : Target)

@[simp] theorem I2c.log_i2dat (s : I2c) (e : Event) : (s.log e).i2dat = s.i2dat := rfl

@[simp] theorem I2c.await_i2dat (delay : Nat) (s : I2c) : (s.await delay).2.i2dat = s.i2dat := by
  unfold I2c.await
  split <;> rfl

@[simp] theorem i2cStop_i2dat (s : I2c) : (i2cStop T s).i2dat = s.i2dat := by
  simp [i2cStop]

/-- A wait for a byte: it is received, or it is lost. -/
theorem awaitByte_cases (s : I2c) :
    (∃ s', s.awaitByte T = (true, s') ∧ Extends s [.recv s'.i2dat s.lastrdBit] s') ∨
    (∃ s', s.awaitByte T = (false, s') ∧ s'.i2dat = s.i2dat ∧ Extends s [.lost] s') := by
  by_cases h : (T.recv s.trace).1 ≤ i2cTimeout
  · refine .inl ⟨(s.awaitByte T).2, ?_, ?_⟩ <;> simp [I2c.awaitByte, I2c.await, h, Extends]
  · refine .inr ⟨(s.awaitByte T).2, ?_, ?_, ?_⟩ <;> simp [I2c.awaitByte, I2c.await, h, Extends]

/-- The events of a call up to its fetch. -/
def fetchEvents (bl last : Bool) (b : Byte) : List Event :=
  (if last then [.stop] else []) ++ (if bl then [.lastrd] else []) ++ [.fetch b]

@[simp] theorem recvBytes_fetchEvents (bl last : Bool) (b : Byte) :
    recvBytes (fetchEvents bl last b) = [] := by
  cases bl <;> cases last <;> rfl

theorem lost_fetchEvents (bl last : Bool) (b : Byte) : .lost ∉ fetchEvents bl last b := by
  cases bl <;> cases last <;> simp [fetchEvents]

theorem frees_fetchEvents (bl : Bool) (b : Byte) : Frees (fetchEvents bl true b) := by
  cases bl <;> exact fun _ => rfl

/-- A call, up to its fetch. -/
theorem i2cByteinRest_fetch (bl last : Bool) (s : I2c) :
    ∃ s₁ : I2c, s₁.i2dat = s.i2dat ∧ Extends s (fetchEvents bl last s.i2dat) s₁ ∧
      i2cByteinRest T bl last s =
        match if last then s₁.await (T.stopShows s₁.trace) else s₁.awaitByte T with
        | (true, s₂) => (s.i2dat, s₂)
        | (false, s₂) => (0, i2cStop T s₂) := by
  cases last with
  | true =>
      refine ⟨(if bl then (s.log .stop).setLastrd else s.log .stop).fetch, ?_, ?_, ?_⟩
      · cases bl <;> rfl
      · cases bl <;> simp [Extends, I2c.fetch, I2c.setLastrd, I2c.log, fetchEvents]
      · cases bl <;> rfl
  | false =>
      refine ⟨(if bl then s.setLastrd else s).fetch, ?_, ?_, ?_⟩
      · cases bl <;> rfl
      · cases bl <;> simp [Extends, I2c.fetch, I2c.setLastrd, I2c.log, fetchEvents]
      · cases bl <;> rfl

/-- The last call hands over its byte, or 0 if the STOP bit does not show. -/
theorem i2cByteinRest_last (bl : Bool) (s : I2c) :
    ∃ v s' ext, i2cByteinRest T bl true s = (v, s') ∧ s'.i2dat = s.i2dat ∧ Extends s ext s' ∧
      recvBytes ext = [] ∧ .lost ∉ ext ∧ Frees ext := by
  obtain ⟨s₁, hdat, hext, hrun⟩ := i2cByteinRest_fetch T bl true s
  have hdat₂ := I2c.await_i2dat (T.stopShows s₁.trace) s₁
  have htrace₂ := I2c.await_trace (T.stopShows s₁.trace) s₁
  rw [if_pos rfl] at hrun
  generalize s₁.await (T.stopShows s₁.trace) = r at hdat₂ htrace₂ hrun
  obtain ⟨shown, s₂⟩ := r
  have hext₂ : Extends s (fetchEvents bl true s.i2dat) s₂ := htrace₂.trans hext
  cases shown with
  | true =>
      exact ⟨_, s₂, _, hrun, hdat₂.trans hdat,
        hext₂, recvBytes_fetchEvents _ _ _, lost_fetchEvents _ _ _,
        frees_fetchEvents _ _⟩
  | false =>
      refine ⟨0, i2cStop T s₂, _, hrun, ?_, hext₂.trans (i2cStop_extends T s₂), ?_, ?_,
        frees_append frees_stop⟩
      · rw [i2cStop_i2dat]
        exact hdat₂.trans hdat
      · rw [recvBytes_append, recvBytes_fetchEvents]
        rfl
      · simpa using lost_fetchEvents bl true s.i2dat

/-- A call that is not the last hands over its byte and receives the next one, or loses it. -/
theorem i2cByteinRest_next (bl : Bool) (s : I2c) :
    (∃ s' ext, i2cByteinRest T bl false s = (s.i2dat, s') ∧ Extends s ext s' ∧
      recvBytes ext = [s'.i2dat] ∧ .lost ∉ ext) ∨
    (∃ s' ext, i2cByteinRest T bl false s = (0, s') ∧ s'.i2dat = s.i2dat ∧ Extends s ext s' ∧
      recvBytes ext = [] ∧ .lost ∈ ext ∧ Frees ext) := by
  obtain ⟨s₁, hdat, hext, hrun⟩ := i2cByteinRest_fetch T bl false s
  rw [if_neg Bool.false_ne_true] at hrun
  rcases awaitByte_cases T s₁ with ⟨s₂, hwait, hrecv⟩ | ⟨s₂, hwait, hdat₂, hlost⟩
  · rw [hwait] at hrun
    refine .inl ⟨s₂, _, hrun, hext.trans hrecv, ?_, ?_⟩
    · rw [recvBytes_append, recvBytes_fetchEvents]
      rfl
    · simpa using lost_fetchEvents bl false s.i2dat
  · rw [hwait] at hrun
    refine .inr ⟨i2cStop T s₂, _, hrun, ?_, (hext.trans hlost).trans (i2cStop_extends T s₂), ?_, ?_,
      frees_append frees_stop⟩
    · rw [i2cStop_i2dat, hdat₂, hdat]
    · rw [recvBytes_append, recvBytes_append, recvBytes_fetchEvents]
      rfl
    · simp

/-- The first read of `I2DAT`: it starts the first byte, which is received or lost. -/
theorem i2cBytein_opens (single bl last : Bool) (s : I2c) :
    (∃ s' x ext, i2cBytein T true single bl last s = i2cByteinRest T bl last s' ∧
      s'.i2dat = x ∧ Extends s ext s' ∧ recvBytes ext = [x] ∧ .lost ∉ ext) ∨
    (∃ s' ext, i2cBytein T true single bl last s = (0, s') ∧ Extends s ext s' ∧
      recvBytes ext = [] ∧ .lost ∈ ext ∧ Frees ext) := by
  have hext : Extends s (fetchEvents single false s.i2dat)
      (if single then s.setLastrd else s).fetch := by
    cases single <;> simp [Extends, I2c.fetch, I2c.setLastrd, I2c.log, fetchEvents]
  generalize hs₁ : (if single then s.setLastrd else s).fetch = s₁ at hext
  rcases awaitByte_cases T s₁ with ⟨s₂, hwait, hrecv⟩ | ⟨s₂, hwait, hdat₂, hlost⟩
  · refine .inl ⟨s₂, _, _, ?_, rfl, hext.trans hrecv, ?_, ?_⟩
    · simp only [i2cBytein, if_true, hs₁, hwait]
    · rw [recvBytes_append, recvBytes_fetchEvents]
      rfl
    · simpa using lost_fetchEvents single false s.i2dat
  · refine .inr ⟨i2cStop T s₂, _, ?_, (hext.trans hlost).trans (i2cStop_extends T s₂), ?_, ?_,
      frees_append frees_stop⟩
    · simp only [i2cBytein, if_true, hs₁, hwait]
    · rw [recvBytes_append, recvBytes_append, recvBytes_fetchEvents]
      rfl
    · simp

/-- What a call or a row of calls adds: without a loss it hands over `vs` of what waits and
what is received, and leaves the others, `rest`, behind; with a loss, `n` bytes at most are
received. -/
structure Moves (before : List Byte) (ext : List Event) (vs rest : List Byte) (n : Nat) : Prop where
  whole : .lost ∉ ext → before ++ recvBytes ext = vs ++ rest
  short : .lost ∈ ext → (before ++ recvBytes ext).length ≤ n

/-- The values a call hands over for sure: the last one is in doubt. -/
def certain (last : Bool) (vs : List Byte) : List Byte := if last then vs.dropLast else vs

theorem i2cByteinRest_moves (bl last : Bool) (s : I2c) :
    ∃ v s' ext, i2cByteinRest T bl last s = (v, s') ∧ Extends s ext s' ∧
      Moves [s.i2dat] ext (certain last [v]) [s'.i2dat] 1 ∧
      (.lost ∈ ext → v = 0 ∧ last = false) ∧ (last = true → Frees ext) := by
  cases last with
  | true =>
      obtain ⟨v, s', ext, hrun, hdat, hext, hrecv, hlost, hfrees⟩ := i2cByteinRest_last T bl s
      refine ⟨v, s', ext, hrun, hext, ⟨fun _ => ?_, fun h => absurd h hlost⟩,
        fun h => absurd h hlost, fun _ => hfrees⟩
      simp [certain, hrecv, hdat]
  | false =>
      rcases i2cByteinRest_next T bl s with
        ⟨s', ext, hrun, hext, hrecv, hlost⟩ | ⟨s', ext, hrun, hdat, hext, hrecv, hlost, hfrees⟩
      · refine ⟨_, s', ext, hrun, hext, ⟨fun _ => ?_, fun h => absurd h hlost⟩,
          fun h => absurd h hlost, fun h => Bool.noConfusion h⟩
        simp [certain, hrecv]
      · refine ⟨0, s', ext, hrun, hext, ⟨fun h => absurd hlost h, fun _ => ?_⟩,
          fun _ => ⟨rfl, rfl⟩, fun _ => hfrees⟩
        simp [hrecv]

/-- Any call. -/
theorem i2cBytein_moves (first single bl last : Bool) (s : I2c) :
    ∃ v s' ext, i2cBytein T first (first && single) bl last s = (v, s') ∧ Extends s ext s' ∧
      Moves (waiting first s) ext (certain last [v]) [s'.i2dat] (!last).toNat ∧
      (.lost ∈ ext → v = 0) ∧ (last = true → Frees ext) := by
  cases first with
  | false =>
      obtain ⟨v, s', ext, hrun, hext, hmoves, hlost, hfrees⟩ := i2cByteinRest_moves T bl last s
      refine ⟨v, s', ext, hrun, hext, ⟨hmoves.whole, fun h => ?_⟩, fun h => (hlost h).1, hfrees⟩
      rw [(hlost h).2]
      exact hmoves.short h
  | true =>
      rcases i2cBytein_opens T single bl last s with
        ⟨s₁, x, ext₁, hrun₁, rfl, hext₁, hrecv₁, hlost₁⟩ |
        ⟨s₁, ext₁, hrun₁, hext₁, hrecv₁, hlost₁, hfrees₁⟩
      · obtain ⟨v, s', ext, hrun, hext, hmoves, hlost, hfrees⟩ := i2cByteinRest_moves T bl last s₁
        refine ⟨v, s', ext₁ ++ ext, hrun₁.trans hrun, hext₁.trans hext, ⟨fun h => ?_, fun h => ?_⟩,
          fun h => (hlost ?_).1, fun h => frees_append (hfrees h)⟩
        · rw [recvBytes_append, hrecv₁]
          exact hmoves.whole fun h' => h (List.mem_append_right _ h')
        · have h' := (List.mem_append.mp h).resolve_left hlost₁
          rw [recvBytes_append, hrecv₁, (hlost h').2]
          exact hmoves.short h'
        · exact (List.mem_append.mp h).resolve_left hlost₁
      · refine ⟨0, s₁, ext₁, hrun₁, hext₁, ⟨fun h => absurd hlost₁ h, fun _ => ?_⟩, fun _ => rfl,
          fun _ => hfrees₁⟩
        simp [hrecv₁, waiting]

/-! ## Rows of calls -/

/-- The call for byte `i` of a read of `n` bytes, which a request with these flags opens and
ends. -/
def byteinAt (first last : Bool) (n i : Nat) (s : I2c) : Byte × I2c :=
  i2cBytein T (first && i == 0) (first && i == 0 && n == 1) (last && i + 2 == n)
    (last && i + 1 == n) s

/-- The values of the first `k` calls of a read of `n` bytes. -/
def transfer (first last : Bool) (n : Nat) : Nat → I2c → List Byte × I2c
  | 0, s => ([], s)
  | k + 1, s =>
      let r := transfer first last n k s
      let c := byteinAt T first last n k r.2
      (r.1 ++ [c.1], c.2)

variable {T} {first last : Bool} {n : Nat}

@[simp] theorem length_transfer (k : Nat) (s : I2c) :
    (transfer T first last n k s).1.length = k := by
  induction k with
  | zero => rfl
  | succ k ih => simp [transfer, ih]

variable (T first last n) in
/-- The call for byte `i`. -/
theorem byteinAt_moves (k : Nat) (s : I2c) :
    ∃ v s' ext, byteinAt T first last n k s = (v, s') ∧ Extends s ext s' ∧
      Moves (waiting (first && k == 0) s) ext (certain (last && k + 1 == n) [v]) [s'.i2dat]
        (!(last && k + 1 == n)).toNat ∧
      (.lost ∈ ext → v = 0) ∧ (last && k + 1 == n → Frees ext) :=
  i2cBytein_moves T (first && k == 0) (n == 1) (last && k + 2 == n) (last && k + 1 == n) s

theorem transfer_succ (k : Nat) (s : I2c) :
    transfer T first last n (k + 1) s =
      ((transfer T first last n k s).1 ++
          [(byteinAt T first last n k (transfer T first last n k s).2).1],
        (byteinAt T first last n k (transfer T first last n k s).2).2) := rfl

theorem certain_append (l : Bool) (vs : List Byte) (v : Byte) :
    certain l (vs ++ [v]) = vs ++ certain l [v] := by
  cases l <;> simp [certain]

/-- Two rows of calls make one.  The byte the first one leaves behind is the one that waits for
the second. -/
theorem Moves.append {before vs vs' rest : List Byte} {ext ext' : List Event}
    {d : Byte} {m m' : Nat}
    (h : Moves before ext vs [d] m) (h' : Moves [d] ext' vs' rest m') (hvs : vs.length = m)
    (hrest : vs'.length + rest.length ≤ m' + 1) :
    Moves before (ext ++ ext') (vs ++ vs') rest (m + m') := by
  refine ⟨fun hno => ?_, fun hlost => ?_⟩
  · rw [List.mem_append, not_or] at hno
    rw [recvBytes_append, ← List.append_assoc, h.whole hno.1, List.append_assoc, h'.whole hno.2,
      List.append_assoc]
  · have hlen' : (recvBytes ext').length ≤ m' := by
      by_cases hno : .lost ∈ ext'
      · have := h'.short hno
        simp at this
        omega
      · have := congrArg List.length (h'.whole hno)
        simp at this
        omega
    rw [recvBytes_append, ← List.append_assoc, List.length_append]
    by_cases hno : .lost ∈ ext
    · have := h.short hno
      omega
    · have := congrArg List.length (h.whole hno)
      have hlost' := h'.short ((List.mem_append.mp hlost).resolve_left hno)
      simp at this hlost' ⊢
      omega

variable (T first last) in
/-- A row of calls. -/
theorem transfer_moves {k : Nat} (hpos : 0 < k) (hk : k ≤ n) (s : I2c) :
    ∃ ext, Extends s ext (transfer T first last n k s).2 ∧
      Moves (waiting first s) ext (certain (last && k == n) (transfer T first last n k s).1)
        [(transfer T first last n k s).2.i2dat] (k - (last && k == n).toNat) ∧
      (last && k == n → Frees ext) := by
  induction k, hpos using Nat.le_induction with
  | base =>
      obtain ⟨v, s', ext, hrun, hext, hmoves, -, hfrees⟩ :=
        byteinAt_moves T first last n 0 s
      have hrow : transfer T first last n 1 s = ([v], s') := by
        rw [transfer_succ]
        simp [transfer, hrun]
      rw [hrow]
      refine ⟨ext, hext, ?_, hfrees⟩
      cases h : (last && 1 == n) <;> simpa [h] using hmoves
  | succ k hpos ih =>
      obtain ⟨ext, hext, hmoves, -⟩ := ih (by omega)
      have hmid : (last && k == n) = false := by
        have : ¬ k = n := by omega
        simp [this]
      have hopen : (first && k == 0) = false := by
        have : ¬ k = 0 := by omega
        simp [this]
      rw [hmid] at hmoves
      obtain ⟨v, s', ext', hrun, hext', hmoves', -, hfrees⟩ :=
        byteinAt_moves T first last n k (transfer T first last n k s).2
      rw [hopen] at hmoves'
      rw [transfer_succ, hrun, certain_append]
      refine ⟨ext ++ ext', hext.trans hext', ?_, fun h => frees_append (hfrees h)⟩
      have hjoin := hmoves.append hmoves' (by simp [certain]) (by
        cases (last && k + 1 == n) <;> simp [certain])
      cases h : (last && k + 1 == n) <;> simpa [h, certain] using hjoin

end

end Smbusb
