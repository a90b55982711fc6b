import Smbusb.Firmware.BusDevice
import Smbusb.Firmware.WriteFrames

/-!
# Frames at a device

What a device makes of the frames of the firmware, on any line.

*Bytes.*  `takeAll` is what the device makes of bytes that are all ACKed.  A string that the
firmware breaks off leaves the device with a beginning of it (`Broken`): either it has dropped out,
or it has seen STOP.

*Writes.*  The bytes of a write are whole only at their end, and again with the packet error code
behind them.  So the device carries out the write if all bytes were ACKed, and otherwise at most
then (`sendFrame_called`).  A frame for another address changes nothing
(`sendFrame_elsewhere`).
-/

namespace Smbusb

open Logic

/-- Bytes with their packet error code behind them, when it is on. -/
def coded (on : Bool) (bytes : List Byte) : List Byte := bytes ++ if on then [crc8 bytes] else []

namespace BusDevice

variable {D : Type} (dev : BusDevice D)

/-- What the device makes of bytes that are ACKed. -/
def takeAll (bs : List Byte) (σ : Slave D) : Slave D := bs.foldl (fun σ b => dev.take b σ) σ

/-- The device is left with a beginning of a string. -/
def Broken (bs : List Byte) (σ σ' : Slave D) : Prop :=
  ∃ pre, pre <+: bs ∧ (σ' = drop (dev.takeAll pre σ) ∨ σ' = dev.stop (dev.takeAll pre σ))

variable {dev} {line : BusLine} {d m : D} {σ σ' : Slave D}

@[simp] theorem takeAll_nil (σ : Slave D) : dev.takeAll [] σ = σ := rfl

@[simp] theorem takeAll_cons (b : Byte) (bs : List Byte) (σ : Slave D) :
    dev.takeAll (b :: bs) σ = dev.takeAll bs (dev.take b σ) := rfl

theorem takeAll_append (bs bs' : List Byte) (σ : Slave D) :
    dev.takeAll (bs ++ bs') σ = dev.takeAll bs' (dev.takeAll bs σ) := List.foldl_append

/-- A device that has dropped out stays out. -/
theorem takeAll_of_idle (h : σ.phase = .idle) (bs : List Byte) : dev.takeAll bs σ = drop σ := by
  induction bs generalizing σ with
  | nil =>
      obtain ⟨phase, mem⟩ := σ
      rw [show phase = .idle from h]
      rfl
  | cons b bs ih => rw [takeAll_cons, take_of_idle h, ih rfl]; rfl

theorem Broken.cons {b : Byte} {bs : List Byte} (h : dev.Broken bs (dev.take b σ) σ') :
    dev.Broken (b :: bs) σ σ' := by
  obtain ⟨pre, hpre, hend⟩ := h
  exact ⟨b :: pre, List.cons_prefix_cons.mpr ⟨rfl, hpre⟩, hend⟩

theorem Broken.stop {bs : List Byte} (h : dev.Broken bs σ σ') :
    dev.Broken bs σ (dev.stop σ') := by
  obtain ⟨pre, hpre, rfl | rfl⟩ := h
  · exact ⟨pre, hpre, .inl (stop_drop _)⟩
  · exact ⟨pre, hpre, .inr (stop_stop _)⟩

theorem Broken.phase {bs : List Byte} (h : dev.Broken bs σ σ') : σ'.phase = .idle := by
  obtain ⟨pre, -, rfl | rfl⟩ := h
  · rfl
  · exact stop_phase _

/-! ## On the bus -/

/-- Between transactions. -/
theorem after_stop (s : I2c) : dev.after line d (i2cStop (dev.target line d) s).trace =
    dev.stop (dev.after line d s.trace) := by
  rw [i2cStop_trace, after_snoc]
  rfl

/-- A byte that is ACKed was taken; one that is not leaves the device out, or was taken before
the STOP. -/
theorem after_byteout (b : Byte) (s : I2c) (hσ : dev.after line d s.trace = σ) :
    ((i2cByteout (dev.target line d) b s).1 = true ∧ (dev.take b σ).phase ≠ .idle ∧
      dev.after line d (i2cByteout (dev.target line d) b s).2.trace = dev.take b σ) ∨
    ((i2cByteout (dev.target line d) b s).1 = false ∧
      dev.Broken [b] σ (dev.after line d (i2cByteout (dev.target line d) b s).2.trace)) := by
  have hdrop : dev.Broken [b] σ (drop σ) := ⟨[], List.nil_prefix, .inl rfl⟩
  by_cases hlate : line.delay s.trace ≤ i2cTimeout
  · by_cases hgarbled : line.garbles s.trace = true
    · have hout : (dev.target line d).out s.trace b = (line.delay s.trace, .berr) := by
        simp [target, hgarbled]
      refine .inr ⟨by simp [i2cByteout, hout, I2c.await, hlate], ?_⟩
      simp only [i2cByteout, hout, I2c.await, hlate, if_true, I2c.log_trace, after_snoc, hσ]
      exact hdrop
    · by_cases hno : line.refuses s.trace = true ∨ (dev.take b σ).phase = .idle
      · have hout : (dev.target line d).out s.trace b = (line.delay s.trace, .nack) := by
          simp [target, hgarbled, hσ, hno]
        refine .inr ⟨by simp [i2cByteout, hout, I2c.await, hlate], ?_⟩
        simp only [i2cByteout, hout, I2c.await, hlate, if_true, I2c.log_trace, after_snoc, hσ]
        exact hdrop
      · have hout : (dev.target line d).out s.trace b = (line.delay s.trace, .ack) := by
          simp [target, hgarbled, hσ, hno]
        refine .inl ⟨by simp [i2cByteout, hout, I2c.await, hlate], fun h => hno (.inr h), ?_⟩
        simp only [i2cByteout, hout, I2c.await, hlate, if_true, I2c.log_trace, after_snoc, hσ]
        rfl
  · have hout : (dev.target line d).out s.trace b =
        (line.delay s.trace, ((dev.target line d).out s.trace b).2) := rfl
    refine .inr ⟨by rw [i2cByteout, hout]; simp [I2c.await, hlate], ?_⟩
    rw [i2cByteout, hout]
    simp only [I2c.await, hlate, if_false, after_stop, I2c.log_trace, after_snoc, hσ, see]
    split
    · exact ⟨[b], List.prefix_refl _, .inr rfl⟩
    · exact hdrop.stop

theorem after_startTries (tries : Nat) (s : I2c) (hσ : dev.after line d s.trace = σ) :
    ((i2cStartTries (dev.target line d) tries s).1 = true →
      dev.after line d (i2cStartTries (dev.target line d) tries s).2.trace = ⟨.begun, σ.mem⟩) ∧
    ((i2cStartTries (dev.target line d) tries s).1 = false → 0 < tries →
      dev.after line d (i2cStartTries (dev.target line d) tries s).2.trace = drop σ) := by
  induction tries generalizing s σ with
  | zero => exact ⟨fun h => Bool.noConfusion h, fun _ h => absurd h (Nat.lt_irrefl 0)⟩
  | succ tries ih =>
      rw [i2cStartTries]
      split
      · have hlog : dev.after line d (s.log (.start true)).trace = drop σ := by
          rw [I2c.log_trace, after_snoc, hσ]
          rfl
        refine ⟨(ih _ hlog).1, fun hno _ => ?_⟩
        cases tries with
        | zero => exact hlog
        | succ tries => exact (ih _ hlog).2 hno (Nat.succ_pos tries)
      · refine ⟨fun _ => ?_, fun h => Bool.noConfusion h⟩
        rw [I2c.log_trace, after_snoc, hσ]
        rfl

/-- START begins a transaction, or leaves the device out. -/
theorem after_start (s : I2c) (hσ : dev.after line d s.trace = σ) :
    ((i2cStart (dev.target line d) s).1 = true →
      dev.after line d (i2cStart (dev.target line d) s).2.trace = ⟨.begun, σ.mem⟩) ∧
    ((i2cStart (dev.target line d) s).1 = false →
      dev.after line d (i2cStart (dev.target line d) s).2.trace = drop σ) :=
  ⟨(after_startTries _ s hσ).1, fun h => (after_startTries _ s hσ).2 h (by decide)⟩

/-- A string. -/
theorem after_sendAll (bs : List Byte) (s : I2c) (hσ : dev.after line d s.trace = σ) :
    ((sendAll (dev.target line d) bs s).1 = true ∧
      (σ.phase ≠ .idle → (dev.takeAll bs σ).phase ≠ .idle) ∧
      dev.after line d (sendAll (dev.target line d) bs s).2.trace = dev.takeAll bs σ) ∨
    ((sendAll (dev.target line d) bs s).1 = false ∧
      dev.Broken bs σ (dev.after line d (sendAll (dev.target line d) bs s).2.trace)) := by
  induction bs generalizing s σ with
  | nil => exact .inl ⟨rfl, id, hσ⟩
  | cons b bs ih =>
      rw [sendAll]
      rcases after_byteout b s hσ with ⟨hack, hphase, hafter⟩ | ⟨hno, hbroken⟩
      · rw [if_pos hack]
        rcases ih _ hafter with ⟨hok, hgoes, hend⟩ | ⟨hfail, hbroken⟩
        · exact .inl ⟨hok, fun _ => hgoes hphase, hend⟩
        · exact .inr ⟨hfail, hbroken.cons⟩
      · rw [if_neg (by rw [hno]; exact Bool.false_ne_true)]
        refine .inr ⟨rfl, ?_⟩
        obtain ⟨pre, hpre, hend⟩ := hbroken
        exact ⟨pre, hpre.trans (List.cons_prefix_cons.mpr ⟨rfl, List.nil_prefix⟩), hend⟩

/-- A frame. -/
theorem after_sendFrame (frame : List Byte) (s : I2c) (hσ : dev.after line d s.trace = σ) :
    ((sendFrame (dev.target line d) frame s).1 = true ∧
      (dev.takeAll frame ⟨.begun, σ.mem⟩).phase ≠ .idle ∧
      dev.after line d (sendFrame (dev.target line d) frame s).2.trace =
        dev.stop (dev.takeAll frame ⟨.begun, σ.mem⟩)) ∨
    ((sendFrame (dev.target line d) frame s).1 = false ∧ dev.Broken frame ⟨.begun, σ.mem⟩
      (dev.after line d (sendFrame (dev.target line d) frame s).2.trace)) := by
  obtain ⟨hyes, hno⟩ := after_start s hσ
  rw [sendFrame]
  by_cases hstart : (i2cStart (dev.target line d) s).1 = true
  · rw [if_pos hstart]
    rcases after_sendAll frame _ (hyes hstart) with ⟨hok, hgoes, hend⟩ | ⟨hfail, hbroken⟩
    · exact .inl ⟨hok, hgoes Phase.noConfusion, by rw [after_stop, hend]⟩
    · exact .inr ⟨hfail, by rw [after_stop]; exact hbroken.stop⟩
  · rw [if_neg hstart]
    refine .inr ⟨rfl, [], List.nil_prefix, .inl ?_⟩
    rw [after_stop, hno (Bool.eq_false_iff.mpr hstart)]
    rfl

/-! ## A calm line -/

/-- A byte that the device has a use for is ACKed. -/
theorem calm_byteout (hcalm : line.Calm) {b : Byte} (s : I2c)
    (h : (dev.take b (dev.after line d s.trace)).phase ≠ .idle) :
    (i2cByteout (dev.target line d) b s).1 = true := by
  have hout : (dev.target line d).out s.trace b = (line.delay s.trace, .ack) := by
    simp [target, hcalm.garbles, hcalm.refuses, h]
  simp [i2cByteout, hout, I2c.await, hcalm.delay s.trace]

theorem calm_start (hcalm : line.Calm) (s : I2c) : (i2cStart (dev.target line d) s).1 = true := by
  have hberr : (dev.target line d).start s.trace = false := hcalm.berr s.trace
  simp [i2cStart, i2cMaxRetries, i2cStartTries, hberr]

/-- So is a string. -/
theorem calm_sendAll (hcalm : line.Calm) {bs : List Byte} (s : I2c)
    (h : (dev.takeAll bs (dev.after line d s.trace)).phase ≠ .idle) :
    (sendAll (dev.target line d) bs s).1 = true := by
  induction bs generalizing s with
  | nil => rfl
  | cons b bs ih =>
      rw [takeAll_cons] at h
      have htake : (dev.take b (dev.after line d s.trace)).phase ≠ .idle := by
        intro hidle
        rw [takeAll_of_idle hidle] at h
        exact h rfl
      have hack := calm_byteout hcalm s htake
      rw [sendAll, if_pos hack]
      refine ih _ ?_
      rcases after_byteout b s rfl with ⟨-, -, hafter⟩ | ⟨hno, -⟩
      · rwa [hafter]
      · rw [hack] at hno
        exact Bool.noConfusion hno

theorem calm_sendFrame (hcalm : line.Calm) {frame : List Byte} (s : I2c)
    (h : (dev.takeAll frame ⟨.begun, (dev.after line d s.trace).mem⟩).phase ≠ .idle) :
    (sendFrame (dev.target line d) frame s).1 = true := by
  have hstart : (i2cStart (dev.target line d) s).1 = true := calm_start hcalm s
  rw [sendFrame, if_pos hstart]
  refine calm_sendAll hcalm _ ?_
  rwa [(after_start s rfl).1 hstart]

/-! ## Writes -/

variable {cmd : Byte} {f : Format} {data : List Byte}

/-- Bytes behind a command, as long as some are missing. -/
theorem takeAll_writing {bs : List Byte} (q : List Byte)
    (hmore : ∀ p b rest, bs = p ++ b :: rest → f.more (q ++ p) = true) :
    dev.takeAll bs ⟨.writing cmd f q, m⟩ = ⟨.writing cmd f (q ++ bs), m⟩ := by
  induction bs generalizing q with
  | nil => rw [takeAll_nil, List.append_nil]
  | cons b bs ih =>
      have hfirst : f.more q = true := by
        have h := hmore [] b bs rfl
        rwa [List.append_nil] at h
      have htake : dev.take b ⟨.writing cmd f q, m⟩ = ⟨.writing cmd f (q ++ [b]), m⟩ := by
        rw [take]
        simp only [hfirst, if_true]
      rw [takeAll_cons, htake, ih (q ++ [b]) fun p b' rest h => ?_, List.append_assoc]
      · rfl
      · rw [List.append_assoc]
        exact hmore (b :: p) b' rest (congrArg (b :: ·) h)

/-- The beginnings of the bytes of a write. -/
theorem takeAll_beginning (hcmd : dev.format cmd = some f) (hfits : f.Fits data) {p : List Byte}
    (hp : p <+: f.encode data) :
    dev.takeAll (dev.addr :: cmd :: p) ⟨.begun, m⟩ = ⟨.writing cmd f p, m⟩ := by
  have hcommand : dev.take cmd (dev.take dev.addr ⟨.begun, m⟩) = ⟨.writing cmd f [], m⟩ := by
    simp only [take, if_true, hcmd]
  rw [takeAll_cons, takeAll_cons, hcommand, takeAll_writing [] fun p' b rest h => ?_]
  · rfl
  · obtain ⟨more, hmore⟩ := hp
    have hsplit : f.encode data = p' ++ b :: (rest ++ more) := by
      rw [← hmore, h, List.append_assoc]
      rfl
    rw [List.nil_append]
    exact Format.more_of_prefix hfits hsplit

/-- The packet error code behind them. -/
theorem takeAll_checked (hcmd : dev.format cmd = some f) (hfits : f.Fits data) :
    dev.takeAll (dev.addr :: cmd :: f.encode data ++ [crc8 (dev.addr :: cmd :: f.encode data)])
      ⟨.begun, m⟩ = ⟨.checked cmd f (f.encode data), m⟩ := by
  rw [takeAll_append, takeAll_beginning hcmd hfits (List.prefix_refl _), takeAll_cons, takeAll_nil,
    take]
  simp only [Format.more_encode hfits, Bool.false_eq_true, if_false, if_true]

/-- What may be behind the bytes of a write. -/
inductive Tail (dev : BusDevice D) (cmd : Byte) (bs : List Byte) : List Byte → Prop
  | none : Tail dev cmd bs []
  | pec : Tail dev cmd bs [crc8 (dev.addr :: cmd :: bs)]

variable (dev) in
theorem coded_tail (on : Bool) (cmd : Byte) (bs : List Byte) :
    ∃ tail, Tail dev cmd bs tail ∧
      coded on (dev.addr :: cmd :: bs) = dev.addr :: cmd :: bs ++ tail := by
  cases on with
  | false => exact ⟨[], .none, rfl⟩
  | true => exact ⟨_, .pec, rfl⟩

/-- A whole write is carried out. -/
theorem stop_whole (hcmd : dev.format cmd = some f) (hfits : f.Fits data) {tail : List Byte}
    (htail : Tail dev cmd (f.encode data) tail) :
    dev.stop (dev.takeAll (dev.addr :: cmd :: f.encode data ++ tail) ⟨.begun, m⟩) =
      ⟨.idle, dev.write cmd data m⟩ := by
  cases htail with
  | none =>
      rw [List.append_nil, takeAll_beginning hcmd hfits (List.prefix_refl _), stop]
      simp only [Format.more_encode hfits, Bool.false_eq_true, if_false, Format.decode_encode]
  | pec =>
      rw [takeAll_checked hcmd hfits, stop]
      simp only [Format.decode_encode]

/-- The device has a use for all of its bytes. -/
theorem takeAll_whole (hcmd : dev.format cmd = some f) (hfits : f.Fits data) {tail : List Byte}
    (htail : Tail dev cmd (f.encode data) tail) :
    (dev.takeAll (dev.addr :: cmd :: f.encode data ++ tail) ⟨.begun, m⟩).phase ≠ .idle := by
  cases htail with
  | none =>
      rw [List.append_nil, takeAll_beginning hcmd hfits (List.prefix_refl _)]
      exact Phase.noConfusion
  | pec =>
      rw [takeAll_checked hcmd hfits]
      exact Phase.noConfusion

/-- STOP behind a beginning of the bytes. -/
theorem stop_prefix (hcmd : dev.format cmd = some f) (hfits : f.Fits data) {p : List Byte}
    (hp : p <+: f.encode data) :
    (dev.stop (dev.takeAll (dev.addr :: cmd :: p) ⟨.begun, m⟩)).mem = m ∨
      (dev.stop (dev.takeAll (dev.addr :: cmd :: p) ⟨.begun, m⟩)).mem = dev.write cmd data m := by
  obtain ⟨rest, hrest⟩ := hp
  cases rest with
  | nil =>
      rw [List.append_nil] at hrest
      have hwhole := stop_whole (m := m) hcmd hfits .none
      rw [List.append_nil] at hwhole
      rw [hrest, hwhole]
      exact .inr rfl
  | cons b rest =>
      rw [takeAll_beginning hcmd hfits ⟨b :: rest, hrest⟩, stop]
      simp only [Format.more_of_prefix hfits hrest.symm, if_true]
      exact .inl trivial

/-- A write that is broken off is carried out once or not at all. -/
theorem Broken.write {tail : List Byte} (hcmd : dev.format cmd = some f) (hfits : f.Fits data)
    (htail : Tail dev cmd (f.encode data) tail)
    (h : dev.Broken (dev.addr :: cmd :: f.encode data ++ tail) ⟨.begun, m⟩ σ') :
    σ'.mem = m ∨ σ'.mem = dev.write cmd data m := by
  have haddr : dev.takeAll [dev.addr] ⟨.begun, m⟩ = ⟨.addressed, m⟩ := by
    simp only [takeAll_cons, takeAll_nil, take, if_true]
  obtain ⟨pre, hpre, hend⟩ := h
  have hcases : pre = [] ∨ pre = [dev.addr] ∨
      (∃ p, p <+: f.encode data ∧ pre = dev.addr :: cmd :: p) ∨
      pre = dev.addr :: cmd :: f.encode data ++ [crc8 (dev.addr :: cmd :: f.encode data)] := by
    rw [List.cons_append, List.cons_append, List.prefix_cons_iff] at hpre
    obtain rfl | ⟨pre₁, rfl, hpre⟩ := hpre
    · exact .inl rfl
    rw [List.prefix_cons_iff] at hpre
    obtain rfl | ⟨pre₂, rfl, hpre⟩ := hpre
    · exact .inr (.inl rfl)
    cases htail with
    | none =>
        rw [List.append_nil] at hpre
        exact .inr (.inr (.inl ⟨pre₂, hpre, rfl⟩))
    | pec =>
        rw [List.prefix_concat_iff] at hpre
        obtain rfl | hpre := hpre
        · exact .inr (.inr (.inr rfl))
        · exact .inr (.inr (.inl ⟨pre₂, hpre, rfl⟩))
  obtain rfl | rfl | ⟨p, hp, rfl⟩ | rfl := hcases
  · obtain rfl | rfl := hend <;> exact .inl rfl
  · rw [haddr] at hend
    obtain rfl | rfl := hend <;> exact .inl rfl
  · obtain rfl | rfl := hend
    · rw [takeAll_beginning hcmd hfits hp]
      exact .inl rfl
    · exact stop_prefix hcmd hfits hp
  · obtain rfl | rfl := hend
    · rw [takeAll_checked hcmd hfits]
      exact .inl rfl
    · rw [stop_whole hcmd hfits .pec]
      exact .inr rfl

/-- The frame of a write is a call of the device: it is carried out if all of it was ACKed, and
otherwise once or not at all. -/
theorem sendFrame_called {tail : List Byte} (hcmd : dev.format cmd = some f)
    (hfits : f.Fits data) (htail : Tail dev cmd (f.encode data) tail) (s : I2c)
    (hσ : dev.after line d s.trace = σ) {r : Bool × I2c}
    (hr : sendFrame (dev.target line d) (dev.addr :: cmd :: f.encode data ++ tail) s = r) :
    Called dev.object (.write cmd data) σ.mem (if r.1 then some [] else none)
      (dev.after line d r.2.trace).mem ∧ (dev.after line d r.2.trace).phase = .idle := by
  subst hr
  rcases after_sendFrame (dev.addr :: cmd :: f.encode data ++ tail) s hσ with
    ⟨hok, -, hend⟩ | ⟨hfail, hbroken⟩
  · rw [stop_whole hcmd hfits htail] at hend
    rw [hok, if_pos rfl, hend]
    exact ⟨.returned, rfl⟩
  · rw [hfail, if_neg Bool.false_ne_true]
    refine ⟨?_, hbroken.phase⟩
    rcases hbroken.write hcmd hfits htail with hmem | hmem
    · rw [hmem]
      exact .missed
    · rw [hmem]
      exact .unseen

/-- Another address is of no use. -/
theorem take_elsewhere {a : Byte} (ha : a ≠ dev.addr) (m : D) :
    dev.take a ⟨.begun, m⟩ = ⟨.idle, m⟩ := by
  simp only [take, if_neg ha]

theorem takeAll_elsewhere {a : Byte} (ha : a ≠ dev.addr) (bs : List Byte) (m : D) :
    dev.takeAll (a :: bs) ⟨.begun, m⟩ = ⟨.idle, m⟩ := by
  rw [takeAll_cons, take_elsewhere ha, takeAll_of_idle rfl]
  rfl

theorem Broken.elsewhere {a : Byte} (ha : a ≠ dev.addr) {bs : List Byte}
    (h : dev.Broken (a :: bs) ⟨.begun, m⟩ σ') : σ' = ⟨.idle, m⟩ := by
  obtain ⟨pre, hpre, hend⟩ := h
  rw [List.prefix_cons_iff] at hpre
  obtain rfl | ⟨p, rfl, -⟩ := hpre
  · obtain rfl | rfl := hend <;> rfl
  · rw [takeAll_elsewhere ha] at hend
    obtain rfl | rfl := hend <;> rfl

/-- A frame for another address is not ACKed, and changes nothing. -/
theorem sendFrame_elsewhere {a : Byte} (ha : a ≠ dev.addr) (bs : List Byte) (s : I2c)
    (hσ : dev.after line d s.trace = σ) {r : Bool × I2c}
    (hr : sendFrame (dev.target line d) (a :: bs) s = r) :
    r.1 = false ∧ dev.after line d r.2.trace = drop σ := by
  subst hr
  rcases after_sendFrame (a :: bs) s hσ with ⟨-, hphase, -⟩ | ⟨hfail, hbroken⟩
  · rw [takeAll_elsewhere ha] at hphase
    exact absurd rfl hphase
  · exact ⟨hfail, hbroken.elsewhere ha⟩

end BusDevice

end Smbusb
