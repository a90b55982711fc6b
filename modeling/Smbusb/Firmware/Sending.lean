import Smbusb.Firmware.Requests

/-!
# Sending frames

Every write request sends its bytes one by one and stops at the first one that is
not ACKed.  `sendAll` is that loop without the handler around it, and `sendFrame`
adds START before and STOP after.  The send paths of the handlers compute
`sendFrame`, so what a frame looks like on the bus is said once, here.

* `sendAll_append`: sending two strings is sending one, then, if it was ACKed, the
  other.
* `sentBytes_sendFrame`: the bytes sent are a beginning of the frame, for every
  target.
* `sendFrame_of_acks`: a target that ACKs everything gets the frame, between one
  START and one STOP.
-/

namespace Smbusb

open Logic Prog

/-! ## What a trace shows -/

/-- The bytes sent, in order. -/
def sentBytes (tr : List Event) : List Byte :=
  tr.filterMap fun
    | .sent b _ => some b
    | _ => none

@[simp] theorem sentBytes_append (tr tr' : List Event) :
    sentBytes (tr ++ tr') = sentBytes tr ++ sentBytes tr' := List.filterMap_append

@[simp] theorem sentBytes_nil : sentBytes [] = [] := rfl

@[simp] theorem sentBytes_sent (b : Byte) (a : Option Answer) (tr : List Event) :
    sentBytes (.sent b a :: tr) = b :: sentBytes tr := rfl

@[simp] theorem sentBytes_start (berr : Bool) (tr : List Event) :
    sentBytes (.start berr :: tr) = sentBytes tr := rfl

@[simp] theorem sentBytes_restart (tr : List Event) :
    sentBytes (.restart :: tr) = sentBytes tr := rfl

@[simp] theorem sentBytes_starts (k : Nat) :
    sentBytes (List.replicate k (.start true)) = [] := by
  simp [sentBytes]

/-- The bytes received, in order. -/
def recvBytes (tr : List Event) : List Byte :=
  tr.filterMap fun
    | .recv b _ => some b
    | _ => none

@[simp] theorem recvBytes_append (tr tr' : List Event) :
    recvBytes (tr ++ tr') = recvBytes tr ++ recvBytes tr' := List.filterMap_append

/-- The state is reached from a trace by the events `ext`. -/
def Extends (s : I2c) (ext : List Event) (s' : I2c) : Prop := s'.trace = s.trace ++ ext

namespace Extends

theorem refl (s : I2c) : Extends s [] s := by simp [Extends]

theorem trans {s s' s'' : I2c} {ext ext' : List Event} (h : Extends s ext s')
    (h' : Extends s' ext' s'') : Extends s (ext ++ ext') s'' := by
  simp only [Extends] at h h' ⊢
  rw [h', h, List.append_assoc]

end Extends

/-! ## The I2C functions on the trace -/

section

variable (T : Target)

@[simp] theorem I2c.log_trace (s : I2c) (e : Event) : (s.log e).trace = s.trace ++ [e] := rfl

@[simp] theorem I2c.await_trace (delay : Nat) (s : I2c) :
    (s.await delay).2.trace = s.trace := by
  unfold I2c.await
  split <;> rfl

@[simp] theorem I2c.log_lastrdBit (s : I2c) (e : Event) : (s.log e).lastrdBit = s.lastrdBit := rfl

@[simp] theorem I2c.await_lastrdBit (delay : Nat) (s : I2c) :
    (s.await delay).2.lastrdBit = s.lastrdBit := by
  unfold I2c.await
  split <;> rfl

@[simp] theorem i2cStop_lastrdBit (s : I2c) : (i2cStop T s).lastrdBit = s.lastrdBit := by
  simp [i2cStop]

@[simp] theorem i2cStart_lastrdBit (s : I2c) : (i2cStart T s).2.lastrdBit = s.lastrdBit := by
  have h : ∀ tries s, (i2cStartTries T tries s).2.lastrdBit = s.lastrdBit := by
    intro tries
    induction tries with
    | zero => intro s; rfl
    | succ tries ih =>
        intro s
        simp only [i2cStartTries]
        split
        · exact ih _
        · rfl
  exact h _ s

@[simp] theorem i2cByteout_lastrdBit (b : Byte) (s : I2c) :
    (i2cByteout T b s).2.lastrdBit = s.lastrdBit := by
  by_cases h : (T.out s.trace b).1 ≤ i2cTimeout <;> simp [i2cByteout, I2c.await, h]

theorem i2cStop_extends (s : I2c) : Extends s [.stop] (i2cStop T s) := by
  simp [Extends, i2cStop]

/-- A START is tried until `BERR` does not show. -/
theorem i2cStartTries_extends (tries : Nat) (s : I2c) :
    ∃ k, Extends s
      (List.replicate k (.start true) ++ if (i2cStartTries T tries s).1 then [.start false] else [])
      (i2cStartTries T tries s).2 := by
  induction tries generalizing s with
  | zero => exact ⟨0, by simpa [i2cStartTries] using Extends.refl s⟩
  | succ tries ih =>
      by_cases h : T.start s.trace = true
      · obtain ⟨k, hk⟩ := ih (s.log (.start true))
        refine ⟨k + 1, ?_⟩
        have h1 : Extends s [.start true] (s.log (.start true)) := rfl
        simp only [i2cStartTries, h, if_true]
        simpa [List.replicate_succ] using h1.trans hk
      · refine ⟨0, ?_⟩
        simp [i2cStartTries, h, Extends]

/-- A sent byte, and a STOP if its answer did not come in time. -/
theorem i2cByteout_extends (b : Byte) (s : I2c) :
    ∃ a : Option Answer, (i2cByteout T b s).1 = decide (a = some .ack) ∧
      Extends s (.sent b a :: if a = none then [.stop] else []) (i2cByteout T b s).2 := by
  by_cases h : (T.out s.trace b).1 ≤ i2cTimeout
  · refine ⟨some (T.out s.trace b).2, ?_, ?_⟩
    · simp [i2cByteout, I2c.await, h]
    · simp [i2cByteout, I2c.await, h, Extends]
  · refine ⟨none, ?_, ?_⟩
    · simp [i2cByteout, I2c.await, h]
    · have hs := i2cStop_extends T
        ({ s with count := BitVec.ofNat 16 (i2cTimeout + 1) }.log (.sent b none))
      simp only [i2cByteout, I2c.await, h, if_false]
      simpa [Extends] using hs

end

/-! ## Strings and frames -/

/-- Send bytes until one is not ACKed. -/
def sendAll (T : Target) : List Byte → I2c → Bool × I2c
  | [], s => (true, s)
  | b :: bs, s => if (i2cByteout T b s).1 then sendAll T bs (i2cByteout T b s).2
      else (false, (i2cByteout T b s).2)

/-- START, the bytes of a frame until one is not ACKed, STOP. -/
def sendFrame (T : Target) (frame : List Byte) (s : I2c) : Bool × I2c :=
  let r := i2cStart T s
  if r.1 then ((sendAll T frame r.2).1, i2cStop T (sendAll T frame r.2).2)
  else (false, i2cStop T r.2)

variable {T : Target}

theorem sendAll_append (bs bs' : List Byte) (s : I2c) :
    sendAll T (bs ++ bs') s =
      if (sendAll T bs s).1 then sendAll T bs' (sendAll T bs s).2 else sendAll T bs s := by
  induction bs generalizing s with
  | nil => simp [sendAll]
  | cons b bs ih =>
      simp only [List.cons_append, sendAll]
      split
      · exact ih _
      · simp

/-- The events of a string: its bytes, as far as they were ACKed, and the first one
that was not. -/
theorem sendAll_extends (bs : List Byte) (s : I2c) :
    ∃ ext, Extends s ext (sendAll T bs s).2 ∧ sentBytes ext <+: bs ∧
      ((sendAll T bs s).1 = true → ext = bs.map fun b => .sent b (some .ack)) := by
  induction bs generalizing s with
  | nil => exact ⟨[], Extends.refl s, List.prefix_refl _, fun _ => rfl⟩
  | cons b bs ih =>
      obtain ⟨a, ha, hb⟩ := i2cByteout_extends T b s
      by_cases hack : a = some .ack
      · obtain ⟨ext, hext, hpre, hall⟩ := ih (i2cByteout T b s).2
        have h1 : (i2cByteout T b s).1 = true := by simp [ha, hack]
        subst hack
        refine ⟨.sent b (some .ack) :: ext, ?_, ?_, ?_⟩
        · simp only [sendAll, h1, if_true]
          simpa using hb.trans hext
        · simpa [sentBytes] using hpre
        · intro h
          simp only [sendAll, h1, if_true] at h
          simp [hall h]
      · have h1 : (i2cByteout T b s).1 = false := by simp [ha, hack]
        refine ⟨.sent b a :: if a = none then [.stop] else [], ?_, ?_, ?_⟩
        · simp only [sendAll, h1, Bool.false_eq_true, if_false]
          exact hb
        · split <;> simp [sentBytes]
        · intro h
          simp [sendAll, h1] at h

/-- What fails on a beginning of a string fails on the string. -/
theorem sendAll_of_fail {pre bs : List Byte} {s s' : I2c} (hpre : pre <+: bs)
    (h : sendAll T pre s = (false, s')) : sendAll T bs s = (false, s') := by
  obtain ⟨rest, rfl⟩ := hpre
  simp [sendAll_append, h]

theorem i2cStart_extends (s : I2c) :
    ∃ ext, Extends s ext (i2cStart T s).2 ∧ sentBytes ext = [] := by
  obtain ⟨k, hk⟩ := i2cStartTries_extends T i2cMaxRetries s
  refine ⟨_, hk, ?_⟩
  rw [sentBytes_append, sentBytes_starts]
  split <;> rfl

/-- For every target, the bytes sent are a beginning of the frame. -/
theorem sentBytes_sendFrame (frame : List Byte) (s : I2c) :
    ∃ ext, Extends s ext (sendFrame T frame s).2 ∧ sentBytes ext <+: frame := by
  obtain ⟨ext, hext, hnil⟩ := i2cStart_extends (T := T) s
  by_cases h : (i2cStart T s).1 = true
  · obtain ⟨ext', hext', hpre, -⟩ := sendAll_extends (T := T) frame (i2cStart T s).2
    refine ⟨ext ++ ext' ++ [.stop], ?_, ?_⟩
    · simp only [sendFrame, h, if_true]
      exact (hext.trans hext').trans (i2cStop_extends T _)
    · have hstop : sentBytes [Event.stop] = [] := rfl
      simpa [hnil, hstop] using hpre
  · refine ⟨ext ++ [.stop], ?_, ?_⟩
    · simp only [sendFrame, h]
      exact hext.trans (i2cStop_extends T _)
    · have hstop : sentBytes [Event.stop] = [] := rfl
      simp [hnil, hstop]

/-! ## A target that ACKs everything -/

/-- No START fails, and every byte is ACKed in time. -/
structure AcksAll (T : Target) : Prop where
  start : ∀ tr, T.start tr = false
  out : ∀ tr b, (T.out tr b).1 ≤ i2cTimeout ∧ (T.out tr b).2 = .ack

theorem i2cStart_of_acks (h : AcksAll T) (s : I2c) :
    i2cStart T s = (true, s.log (.start false)) := by
  simp [i2cStart, i2cMaxRetries, i2cStartTries, h.start]

theorem i2cByteout_of_acks (h : AcksAll T) (b : Byte) (s : I2c) :
    (i2cByteout T b s).1 = true ∧
      Extends s [.sent b (some .ack)] (i2cByteout T b s).2 := by
  obtain ⟨h1, h2⟩ := h.out s.trace b
  simp [i2cByteout, I2c.await, h1, h2, Extends]

theorem sendAll_of_acks (h : AcksAll T) (bs : List Byte) (s : I2c) :
    (sendAll T bs s).1 = true := by
  induction bs generalizing s with
  | nil => rfl
  | cons b bs ih =>
      simp only [sendAll, (i2cByteout_of_acks h b s).1, if_true]
      exact ih _

/-- What the bus sees of a frame that is ACKed throughout. -/
def frameTrace (frame : List Byte) : List Event :=
  .start false :: frame.map (fun b => .sent b (some .ack)) ++ [.stop]

theorem sendFrame_of_acks (h : AcksAll T) (frame : List Byte) (s : I2c) :
    (sendFrame T frame s).1 = true ∧ Extends s (frameTrace frame) (sendFrame T frame s).2 := by
  have hall := sendAll_of_acks h frame (s.log (.start false))
  obtain ⟨ext, hext, -, heq⟩ := sendAll_extends (T := T) frame (s.log (.start false))
  have h1 : Extends s [.start false] (s.log (.start false)) := rfl
  refine ⟨?_, ?_⟩
  · simp [sendFrame, i2cStart_of_acks h, hall]
  · simp only [sendFrame, i2cStart_of_acks h, if_true]
    have h2 := (h1.trans hext).trans (i2cStop_extends T _)
    rw [heq hall] at h2
    simpa [frameTrace] using h2

theorem length_frameTrace (frame : List Byte) : (frameTrace frame).length = frame.length + 2 := by
  simp [frameTrace]

@[simp] theorem sentBytes_frameTrace (frame : List Byte) :
    sentBytes (frameTrace frame) = frame := by
  simp [frameTrace, sentBytes, List.filterMap_map]

/-- A target that ACKs every byte at once and answers with these bytes, one for each
that it was asked for. -/
def Target.answers (bs : List Byte) : Target where
  start _ := false
  out _ _ := (0, .ack)
  recv tr := (0, bs.getD (recvBytes tr).length 0)
  stopOver _ := 0
  stopShows _ := 0

theorem acksAll_answers (bs : List Byte) : AcksAll (Target.answers bs) :=
  ⟨fun _ => rfl, fun _ _ => ⟨Nat.zero_le _, rfl⟩⟩

end Smbusb
