import Smbusb.Firmware.Sending

/-!
# Arbitrary writes in the firmware

An arbitrary transaction is made of pieces, so what a `WRITE` request does depends on
nothing but the bus and the PEC so far.  `Tx` holds both, and whether the transaction
still goes on.  The parts of a request are functions that can be put one after the
other with `Tx.andThen`.

*One request.*  `Tx.write` is a `WRITE` request without the handler around it:
conditions, bytes, end.  `write_run` says that the handler computes it, for every
target.

*Pieces.*  `Tx.write_append`: writing two strings is writing the one, without the
end, and then the other, without the conditions.

*Shape.*  `Tx.write_shape` says what a write looks like on the bus.
-/

namespace Smbusb

open Logic Prog Fw Handler

/-! ## The bus alone -/

section

variable (T : Target)

/-- `i2cByteout` on the trace. -/
def byteoutTrace (b : Byte) (tr : List Event) : Bool × List Event :=
  let (delay, a) := T.out tr b
  if delay ≤ i2cTimeout then (a = .ack, tr ++ [.sent b (some a)])
  else (false, tr ++ [.sent b none, .stop])

/-- `i2cStartTries` on the trace. -/
def startTrace : Nat → List Event → Bool × List Event
  | 0, tr => (false, tr)
  | tries + 1, tr =>
      if T.start tr then startTrace tries (tr ++ [.start true]) else (true, tr ++ [.start false])

@[simp] theorem i2cStop_trace (s : I2c) : (i2cStop T s).trace = s.trace ++ [.stop] := by
  simp [i2cStop]

theorem i2cByteout_byteoutTrace (b : Byte) (s : I2c) :
    byteoutTrace T b s.trace = ((i2cByteout T b s).1, (i2cByteout T b s).2.trace) := by
  by_cases h : (T.out s.trace b).1 ≤ i2cTimeout <;>
    simp [byteoutTrace, i2cByteout, I2c.await, h]

theorem i2cStart_startTrace (s : I2c) :
    startTrace T i2cMaxRetries s.trace = ((i2cStart T s).1, (i2cStart T s).2.trace) := by
  have h : ∀ tries s, startTrace T tries s.trace =
      ((i2cStartTries T tries s).1, (i2cStartTries T tries s).2.trace) := by
    intro tries
    induction tries with
    | zero => intro s; rfl
    | succ tries ih =>
        intro s
        simp only [startTrace, i2cStartTries]
        split
        · exact ih (s.log (.start true))
        · rfl
  exact h _ s

end

/-! ## A transaction -/

/-- How far a transaction has come. -/
structure Tx where
  /-- Nothing failed so far. -/
  ok : Bool
  /-- The PEC so far. -/
  pec : Byte
  /-- What was done on the bus. -/
  trace : List Event

namespace Tx

/-- Go on, unless something failed. -/
def andThen (r : Tx) (f : Byte → List Event → Tx) : Tx := if r.ok then f r.pec r.trace else r

theorem andThen_assoc (r : Tx) (f g : Byte → List Event → Tx) :
    (r.andThen f).andThen g = r.andThen fun pec tr => (f pec tr).andThen g := by
  cases h : r.ok with
  | true => simp [andThen, h]
  | false => simp [andThen, h]

@[simp] theorem andThen_pure (r : Tx) : (r.andThen fun pec tr => ⟨true, pec, tr⟩) = r := by
  obtain ⟨ok, pec, tr⟩ := r
  cases ok <;> rfl

@[simp] theorem pure_andThen (pec : Byte) (tr : List Event) (f : Byte → List Event → Tx) :
    (⟨true, pec, tr⟩ : Tx).andThen f = f pec tr := rfl

/-- A failed transaction goes no further. -/
theorem andThen_of_fail {r : Tx} (h : r.ok = false) (f : Byte → List Event → Tx) :
    r.andThen f = r := by
  simp [andThen, h]

section

variable (T : Target) (on : Bool)

/-- The conditions: START, which begins a new PEC, and a repeated START. -/
def conditions (start restart : Bool) (pec : Byte) (tr : List Event) : Tx :=
  let restarts : List Event := if restart then [.restart] else []
  if start then
    let pec := if on then 0 else pec
    let r := startTrace T i2cMaxRetries tr
    if r.1 then ⟨true, pec, r.2 ++ restarts⟩ else ⟨false, pec, r.2 ++ [.stop]⟩
  else ⟨true, pec, tr ++ restarts⟩

/-- The bytes, up to the first one that is not ACKed. -/
def bytes : List Byte → Byte → List Event → Tx
  | [], pec, tr => ⟨true, pec, tr⟩
  | b :: bs, pec, tr =>
      let r := byteoutTrace T b tr
      if r.1 then bytes bs (if on then pecCrc pec b else pec) r.2
      else ⟨false, pec, r.2 ++ [.stop]⟩

/-- The end: the PEC when it is on, and STOP. -/
def finish (stop : Bool) (pec : Byte) (tr : List Event) : Tx :=
  if stop then
    if on then
      let r := byteoutTrace T pec tr
      ⟨r.1, pec, r.2 ++ [.stop]⟩
    else ⟨true, pec, tr ++ [.stop]⟩
  else ⟨true, pec, tr⟩

/-- A `WRITE` request. -/
def write (start restart stop : Bool) (data : List Byte) (pec : Byte) (tr : List Event) : Tx :=
  ((conditions T on start restart pec tr).andThen (bytes T on data)).andThen (finish T on stop)

theorem conditions_none (pec : Byte) (tr : List Event) :
    conditions T on false false pec tr = ⟨true, pec, tr⟩ := by
  simp [conditions]

theorem finish_none : finish T on false = fun pec tr => ⟨true, pec, tr⟩ := rfl

theorem bytes_append (a b : List Byte) (pec : Byte) (tr : List Event) :
    bytes T on (a ++ b) pec tr = (bytes T on a pec tr).andThen (bytes T on b) := by
  induction a generalizing pec tr with
  | nil => rfl
  | cons x a ih =>
      simp only [List.cons_append, bytes]
      split
      · exact ih _ _
      · rfl

/-- Writing two strings is writing the one and then the other. -/
theorem write_append (start restart stop : Bool) (a b : List Byte) (pec : Byte)
    (tr : List Event) :
    write T on start restart stop (a ++ b) pec tr =
      (write T on start restart false a pec tr).andThen (write T on false false stop b) := by
  have hb : bytes T on (a ++ b) = fun pec tr => (bytes T on a pec tr).andThen (bytes T on b) := by
    funext pec tr
    exact bytes_append T on a b pec tr
  have hw : write T on false false stop b =
      fun pec tr => (bytes T on b pec tr).andThen (finish T on stop) := by
    funext pec tr
    simp only [write, conditions_none, pure_andThen]
  rw [hw]
  simp only [write, hb, finish_none, andThen_pure, andThen_assoc]

end

end Tx

/-! ## The shape of a write -/

/-- The PEC over more bytes, when it is on. -/
def pecOver (on : Bool) (bs : List Byte) (pec : Byte) : Byte :=
  if on then bs.foldl pecCrc pec else pec

theorem pecOver_append (on : Bool) (a b : List Byte) (pec : Byte) :
    pecOver on (a ++ b) pec = pecOver on b (pecOver on a pec) := by
  cases on with
  | false => rfl
  | true => exact List.foldl_append

/-- The events of bytes that were ACKed. -/
def acked (bs : List Byte) : List Event := bs.map fun b => .sent b (some .ack)

/-- The events of one byte, whose answer did not come in time when it is `none`. -/
def byteEvents (b : Byte) (a : Option Answer) : List Event :=
  .sent b a :: if a = none then [.stop] else []

/-- The events of the conditions, with `k` STARTs that failed. -/
def conditionEvents (start restart : Bool) (k : Nat) : List Event :=
  (if start then List.replicate k (.start true) ++ [.start false] else []) ++
    if restart then [.restart] else []

/-- What a write adds to the bus, with its result and the PEC after it: the conditions,
then the bytes up to the first one that is not ACKed, then the end. -/
inductive WriteShape (on start restart stop : Bool) (data : List Byte) (pec : Byte) :
    Bool → Byte → List Event → Prop where
  /-- No START was possible. -/
  | noStart (hstart : start = true) :
      WriteShape on start restart stop data pec false pec
        (List.replicate i2cMaxRetries (.start true) ++ [.stop])
  /-- A byte was not ACKed. -/
  | refused (k : Nat) {pre post : List Byte} {b : Byte} {a : Option Answer}
      (hdata : data = pre ++ b :: post) (hno : a ≠ some .ack) :
      WriteShape on start restart stop data pec false (pecOver on pre pec)
        (conditionEvents start restart k ++ acked pre ++ byteEvents b a ++ [.stop])
  /-- All bytes were ACKed, and there is no end. -/
  | going (k : Nat) (hstop : stop = false) :
      WriteShape on start restart stop data pec true (pecOver on data pec)
        (conditionEvents start restart k ++ acked data)
  /-- All bytes were ACKed, and the end is STOP. -/
  | stopped (k : Nat) (hstop : stop = true) (hoff : on = false) :
      WriteShape on start restart stop data pec true (pecOver on data pec)
        (conditionEvents start restart k ++ acked data ++ [.stop])
  /-- All bytes were ACKed, and the end is the PEC and STOP. -/
  | checked (k : Nat) {a : Option Answer} (hstop : stop = true) (hon : on = true) :
      WriteShape on start restart stop data pec (decide (a = some .ack)) (pecOver on data pec)
        (conditionEvents start restart k ++ acked data ++ byteEvents (pecOver on data pec) a ++
          [.stop])

section

variable (T : Target)

theorem byteoutTrace_shape (b : Byte) (tr : List Event) :
    ∃ a, byteoutTrace T b tr = (decide (a = some .ack), tr ++ byteEvents b a) := by
  by_cases h : (T.out tr b).1 ≤ i2cTimeout
  · exact ⟨some (T.out tr b).2, by simp [byteoutTrace, h, byteEvents]⟩
  · exact ⟨none, by simp [byteoutTrace, h, byteEvents]⟩

theorem startTrace_shape (tries : Nat) (tr : List Event) :
    startTrace T tries tr = (false, tr ++ List.replicate tries (.start true)) ∨
      ∃ k, startTrace T tries tr =
        (true, tr ++ (List.replicate k (.start true) ++ [.start false])) := by
  induction tries generalizing tr with
  | zero => exact .inl (by simp [startTrace])
  | succ tries ih =>
      by_cases h : T.start tr = true
      · simp only [startTrace, h, if_true]
        rcases ih (tr ++ [.start true]) with hno | ⟨k, hyes⟩
        · exact .inl (by rw [hno]; simp [List.replicate_succ])
        · exact .inr ⟨k + 1, by rw [hyes]; simp [List.replicate_succ]⟩
      · exact .inr ⟨0, by simp [startTrace, h]⟩

/-- The bytes are ACKed, or there is a first one that is not. -/
theorem Tx.bytes_shape (on : Bool) (data : List Byte) (pec : Byte) (tr : List Event) :
    Tx.bytes T on data pec tr = ⟨true, pecOver on data pec, tr ++ acked data⟩ ∨
      ∃ pre b post a, data = pre ++ b :: post ∧ a ≠ some Answer.ack ∧ Tx.bytes T on data pec tr =
        ⟨false, pecOver on pre pec, tr ++ acked pre ++ byteEvents b a ++ [.stop]⟩ := by
  induction data generalizing pec tr with
  | nil => exact .inl (by simp [Tx.bytes, acked, pecOver])
  | cons x data ih =>
      obtain ⟨a, ha⟩ := byteoutTrace_shape T x tr
      by_cases hack : a = some .ack
      · subst hack
        have hone : Tx.bytes T on (x :: data) pec tr =
            Tx.bytes T on data (pecOver on [x] pec) (tr ++ [.sent x (some .ack)]) := by
          simp only [Tx.bytes, ha, decide_true, if_true]
          rfl
        rcases ih (pecOver on [x] pec) (tr ++ [.sent x (some .ack)]) with hall |
          ⟨pre, b, post, a, rfl, hno, hfail⟩
        · refine .inl ?_
          rw [hone, hall, ← pecOver_append]
          simp [acked]
        · refine .inr ⟨x :: pre, b, post, a, rfl, hno, ?_⟩
          rw [hone, hfail, ← pecOver_append]
          simp [acked]
      · refine .inr ⟨[], x, data, a, rfl, hack, ?_⟩
        simp [Tx.bytes, ha, hack, acked, pecOver]

theorem Tx.conditions_shape (on start restart : Bool) (pec : Byte) (tr : List Event) :
    (start = true ∧ Tx.conditions T on start restart pec tr =
      ⟨false, if start && on then 0 else pec,
        tr ++ (List.replicate i2cMaxRetries (.start true) ++ [.stop])⟩) ∨
    ∃ k, Tx.conditions T on start restart pec tr =
      ⟨true, if start && on then 0 else pec, tr ++ conditionEvents start restart k⟩ := by
  cases start with
  | false => exact .inr ⟨0, by simp [Tx.conditions, conditionEvents]⟩
  | true =>
      rcases startTrace_shape T i2cMaxRetries tr with hno | ⟨k, hyes⟩
      · exact .inl ⟨rfl, by simp [Tx.conditions, hno]⟩
      · exact .inr ⟨k, by simp [Tx.conditions, hyes, conditionEvents]⟩

/-- What a write looks like on the bus, for every target. -/
theorem Tx.write_shape (on start restart stop : Bool) (data : List Byte) (pec : Byte)
    (tr : List Event) : ∃ ext, (Tx.write T on start restart stop data pec tr).trace = tr ++ ext ∧
      WriteShape on start restart stop data (if start && on then 0 else pec)
        (Tx.write T on start restart stop data pec tr).ok
        (Tx.write T on start restart stop data pec tr).pec ext := by
  rcases Tx.conditions_shape T on start restart pec tr with ⟨hstart, hno⟩ | ⟨k, hyes⟩
  · refine ⟨List.replicate i2cMaxRetries (.start true) ++ [.stop], ?_, ?_⟩
    · simp only [Tx.write, hno, Tx.andThen, Bool.false_eq_true, if_false]
    · simp only [Tx.write, hno, Tx.andThen, Bool.false_eq_true, if_false]
      exact .noStart hstart
  generalize (if start && on then (0 : Byte) else pec) = pec at hyes ⊢
  rcases Tx.bytes_shape T on data pec (tr ++ conditionEvents start restart k) with hall |
    ⟨pre, b, post, a, hdata, hno, hfail⟩
  · simp only [Tx.write, hyes, Tx.pure_andThen, hall, Tx.finish]
    cases stop with
    | false => exact ⟨_, List.append_assoc .., .going k rfl⟩
    | true =>
        cases on with
        | false => exact ⟨_, by simp, .stopped k rfl rfl⟩
        | true =>
            obtain ⟨a, ha⟩ := byteoutTrace_shape T (pecOver true data pec)
              (tr ++ conditionEvents start restart k ++ acked data)
            simp only [if_true, ha]
            exact ⟨_, by simp, .checked k rfl rfl⟩
  · simp only [Tx.write, hyes, hfail, Tx.andThen]
    exact ⟨_, by simp, .refused k hdata hno⟩

/-! ## A target that ACKs everything -/

variable {T}

theorem byteoutTrace_of_acks (h : AcksAll T) (b : Byte) (tr : List Event) :
    byteoutTrace T b tr = (true, tr ++ [.sent b (some .ack)]) := by
  simp [byteoutTrace, h.out tr b]

theorem Tx.bytes_of_acks (h : AcksAll T) (on : Bool) (data : List Byte) (pec : Byte)
    (tr : List Event) :
    Tx.bytes T on data pec tr = ⟨true, pecOver on data pec, tr ++ acked data⟩ := by
  induction data generalizing pec tr with
  | nil => simp [Tx.bytes, acked, pecOver]
  | cons x data ih =>
      simp only [Tx.bytes, byteoutTrace_of_acks h, if_true, ih]
      cases on <;> simp [acked, pecOver]

/-- A write without an end, when everything is ACKed. -/
theorem Tx.write_of_acks (h : AcksAll T) (on start restart : Bool) (data : List Byte) (pec : Byte)
    (tr : List Event) :
    Tx.write T on start restart false data pec tr =
      ⟨true, pecOver on data (if start && on then 0 else pec),
        tr ++ conditionEvents start restart 0 ++ acked data⟩ := by
  have hstart : startTrace T i2cMaxRetries tr = (true, tr ++ [.start false]) := by
    simp [i2cMaxRetries, startTrace, h.start]
  have hcond : Tx.conditions T on start restart pec tr =
      ⟨true, if start && on then 0 else pec, tr ++ conditionEvents start restart 0⟩ := by
    cases start with
    | false => simp [Tx.conditions, conditionEvents]
    | true => simp [Tx.conditions, hstart, conditionEvents]
  rw [Tx.write, hcond, Tx.pure_andThen, Tx.bytes_of_acks h, Tx.pure_andThen, Tx.finish_none]

end

/-! ## One request -/

section

variable {T : Target} {fuel : Nat} {smbAddr smbCmd : Word}

/-- The bus and the PEC of the state are those of the transaction, but for events that
are still to come. -/
def Tx.Shown (r : Tx) (s : Fx2) (b : I2c) (later : List Event) (s' : Fx2) : Prop :=
  ∃ b' : I2c, s' = { s with toI2c := b', mrqPec := r.pec } ∧ b'.trace ++ later = r.trace ∧
    b'.lastrdBit = b.lastrdBit

/-- From the state `s`, up to the bus and the PEC, the program does what `f` says.  When it
fails, the STOP is left to the label it jumps to. -/
def Computes (s : Fx2) (m : Fw Unit) (f : Byte → List Event → Tx) : Prop :=
  ∀ (b : I2c) (pec : Byte) (r : Tx), f pec b.trace = r →
    wp m (fun _ s' => r.ok = true ∧ r.Shown s b [] s')
      (fun _ s' => r.ok = false ∧ r.Shown s b [.stop] s') { s with toI2c := b, mrqPec := pec }

theorem Computes.andThen {s : Fx2} {m m' : Fw Unit} {f f' : Byte → List Event → Tx}
    (h : Computes s m f) (h' : Computes s m' f') :
    Computes s (do m; m') fun pec tr => (f pec tr).andThen f' := by
  rintro b pec r rfl
  rw [wp_bind]
  refine wp_mono (h b pec _ rfl) ?_ ?_
  · rintro - s' ⟨hok, b', rfl, htrace, hbit⟩
    rw [List.append_nil] at htrace
    refine wp_mono (h' b' _ ((f pec b.trace).andThen f') ?_) ?_ ?_
    · rw [Tx.andThen, if_pos hok, htrace]
    · rintro - s' ⟨hok', b'', hs', htrace', hbit'⟩
      exact ⟨hok', b'', hs', htrace', hbit'.trans hbit⟩
    · rintro - s' ⟨hok', b'', hs', htrace', hbit'⟩
      exact ⟨hok', b'', hs', htrace', hbit'.trans hbit⟩
  · rintro - s' ⟨hok, hshown⟩
    dsimp only
    rw [Tx.andThen_of_fail hok]
    exact ⟨hok, hshown⟩

/-- A byte is sent. -/
theorem wp_byteout {Q : Unit → Fx2 → Prop} {E : Label → Fx2 → Prop} {s : Fx2} {l : Label}
    {byte : Byte}
    (hack : ∀ b : I2c, byteoutTrace T byte s.trace = (true, b.trace) →
      b.lastrdBit = s.lastrdBit → Q () { s with toI2c := b })
    (hno : ∀ b : I2c, byteoutTrace T byte s.trace = (false, b.trace) →
      b.lastrdBit = s.lastrdBit → E l { s with toI2c := b }) :
    wp (orGoto (i2c (i2cByteout T byte)) l) Q E s := by
  have h := i2cByteout_byteoutTrace T byte s.toI2c
  have hbit := i2cByteout_lastrdBit T byte s.toI2c
  rw [wp_orGoto, wp_i2c]
  cases hok : (i2cByteout T byte s.toI2c).1 with
  | true => exact hack _ (by rw [h, hok]) hbit
  | false => exact hno _ (by rw [h, hok]) hbit

theorem computes_conditions (s : Fx2) :
    Computes s (writeConditions T smbCmd) (Tx.conditions T s.pecEnabled
      (hasFlag (toByte smbCmd) writeCmdStartFirst)
      (hasFlag (toByte smbCmd) writeCmdRestartFirst)) := by
  rintro b pec r rfl
  have hstart := i2cStart_startTrace T b
  have hbit := i2cStart_lastrdBit T b
  rw [writeConditions]
  cases hasFlag (toByte smbCmd) writeCmdStartFirst with
  | false =>
    cases hasFlag (toByte smbCmd) writeCmdRestartFirst with
    | false => exact ⟨rfl, b, rfl, by simp [Tx.conditions], rfl⟩
    | true => exact ⟨rfl, i2cRestart b, rfl, by simp [Tx.conditions, i2cRestart], rfl⟩
  | true =>
    simp only [if_true, wp_bind, wp_modify, wp_orGoto, wp_i2c]
    have hpec : (if s.pecEnabled then { s with toI2c := b, mrqPec := (0 : Byte) } else
        { s with toI2c := b, mrqPec := pec }) =
        { s with toI2c := b, mrqPec := if s.pecEnabled then 0 else pec } := by
      split <;> rfl
    rw [hpec]
    generalize i2cStart T b = q at hstart hbit ⊢
    obtain ⟨ok, b'⟩ := q
    cases ok with
    | false =>
      refine ⟨by simp [Tx.conditions, hstart], b', ?_, ?_, hbit⟩
      · simp [Tx.conditions, hstart]
      · simp [Tx.conditions, hstart]
    | true =>
      cases hasFlag (toByte smbCmd) writeCmdRestartFirst with
      | false =>
        refine ⟨by simp [Tx.conditions, hstart], b', ?_, ?_, hbit⟩
        · simp [Tx.conditions, hstart]
        · simp [Tx.conditions, hstart]
      | true =>
        refine ⟨by simp [Tx.conditions, hstart], i2cRestart b', ?_, ?_, hbit⟩
        · simp [Tx.conditions, hstart]
        · simp [Tx.conditions, hstart, i2cRestart]

theorem computes_bytes (hfuel : 65 ≤ fuel) (hlen : smbAddr.toNat ≤ 64) (s : Fx2) :
    Computes s (writeBytes T fuel smbAddr)
      (Tx.bytes T s.pecEnabled (s.ep0buf.read 0 smbAddr.toNat)) := by
  rintro b pec r rfl
  -- After `k` turns the first `k` bytes were sent, each of them ACKed.
  rw [writeBytes, wp_bind]
  refine wp_whileLoop (fun k i s' => i.toNat = k ∧
    (Tx.bytes T s.pecEnabled (s.ep0buf.read 0 k) pec b.trace).ok = true ∧
    (Tx.bytes T s.pecEnabled (s.ep0buf.read 0 k) pec b.trace).Shown s b [] s') smbAddr.toNat
    ?_ ?_ (by omega) ?_
  · rintro k hk i s' ⟨rfl, hok, b', rfl, htrace, hbit⟩
    rw [List.append_nil] at htrace
    generalize hr : Tx.bytes T s.pecEnabled (s.ep0buf.read 0 i.toNat) pec b.trace = r at *
    have hi : (i + 1).toNat = i.toNat + 1 := toNat_succ (by omega)
    have hin : ¬ ep0Size ≤ i.toNat := by simp only [ep0Size]; omega
    have hread : s.ep0buf.read 0 (i.toNat + 1) =
        s.ep0buf.read 0 i.toNat ++ [s.ep0buf i.toNat] := by
      simpa using Mem.read_succ s.ep0buf 0 i.toNat
    have hnext : Tx.bytes T s.pecEnabled (s.ep0buf.read 0 (i.toNat + 1)) pec b.trace =
        Tx.bytes T s.pecEnabled [s.ep0buf i.toNat] r.pec b'.trace := by
      rw [hread, Tx.bytes_append, hr, Tx.andThen, if_pos hok, htrace]
    refine ⟨?_, ?_⟩
    · simp [BitVec.lt_def]
      omega
    simp only [wp_bind, wp_ep0buf, hin, decide_false, Bool.or_false]
    refine wp_byteout ?_ ?_
    · intro b'' hsent hbit''
      have hone : Tx.bytes T s.pecEnabled [s.ep0buf i.toNat] r.pec b'.trace =
          ⟨true, if s.pecEnabled then pecCrc r.pec (s.ep0buf i.toNat) else r.pec, b''.trace⟩ := by
        simp only [Tx.bytes, show byteoutTrace T _ b'.trace = _ from hsent, if_true]
      rw [hnext, hone]
      refine ⟨hi, rfl, b'', ?_, List.append_nil _, hbit''.trans hbit⟩
      cases s.pecEnabled <;> simp
    · intro b'' hsent hbit''
      have hone : Tx.bytes T s.pecEnabled [s.ep0buf i.toNat] r.pec b'.trace =
          ⟨false, r.pec, b''.trace ++ [.stop]⟩ := by
        simp only [Tx.bytes, show byteoutTrace T _ b'.trace = _ from hsent, Bool.false_eq_true,
          if_false]
      have hall : Tx.bytes T s.pecEnabled (s.ep0buf.read 0 smbAddr.toNat) pec b.trace =
          ⟨false, r.pec, b''.trace ++ [.stop]⟩ := by
        have hsplit : s.ep0buf.read 0 smbAddr.toNat = s.ep0buf.read 0 (i.toNat + 1) ++
            s.ep0buf.read (i.toNat + 1) (smbAddr.toNat - (i.toNat + 1)) := by
          have := Mem.read_add s.ep0buf 0 (i.toNat + 1) (smbAddr.toNat - (i.toNat + 1))
          rwa [Nat.zero_add, Nat.add_sub_cancel' (by omega)] at this
        rw [hsplit, Tx.bytes_append, hnext, hone]
        rfl
      rw [hall]
      exact ⟨rfl, b'', rfl, rfl, hbit''.trans hbit⟩
  · rintro i s' ⟨hi, hok, hshown⟩
    refine ⟨?_, hok, hshown⟩
    simp [BitVec.lt_def]
    omega
  · exact ⟨rfl, rfl, b, rfl, by simp [Tx.bytes], rfl⟩

theorem computes_finish (s : Fx2) :
    Computes s (writeFinish T smbCmd) (Tx.finish T s.pecEnabled
      (hasFlag (toByte smbCmd) writeCmdStopAfter)) := by
  rintro b pec r rfl
  rw [writeFinish]
  cases hasFlag (toByte smbCmd) writeCmdStopAfter with
  | false => exact ⟨rfl, b, rfl, by simp [Tx.finish], rfl⟩
  | true =>
    cases hon : s.pecEnabled with
    | false =>
      simp only [if_true, wp_bind, wp_get, wp_ite, Bool.false_eq_true, if_false, wp_i2cDo]
      exact ⟨rfl, i2cStop T b, by simp [Tx.finish, hon], by simp [Tx.finish], by simp⟩
    | true =>
      simp only [if_true, wp_bind, wp_get, wp_ite]
      refine wp_byteout ?_ ?_
      · intro b' hsent hbit
        have hfin : Tx.finish T true true pec b.trace = ⟨true, pec, b'.trace ++ [.stop]⟩ := by
          simp only [Tx.finish, if_true, show byteoutTrace T pec b.trace = _ from hsent]
        rw [hfin]
        exact ⟨rfl, i2cStop T b', by simp [hon], by simp, by simpa using hbit⟩
      · intro b' hsent hbit
        have hfin : Tx.finish T true true pec b.trace = ⟨false, pec, b'.trace ++ [.stop]⟩ := by
          simp only [Tx.finish, if_true, show byteoutTrace T pec b.trace = _ from hsent]
        rw [hfin]
        exact ⟨rfl, b', by simp [hon], rfl, hbit⟩

variable (T fuel smbAddr smbCmd) in
/-- The handler of `WRITE` computes `Tx.write` of the bytes of the request. -/
theorem write_run (hfuel : 65 ≤ fuel) (hlen : smbAddr.toNat ≤ 64) (s : Fx2) :
    let r := Tx.write T s.pecEnabled (hasFlag (toByte smbCmd) writeCmdStartFirst)
      (hasFlag (toByte smbCmd) writeCmdRestartFirst) (hasFlag (toByte smbCmd) writeCmdStopAfter)
      (s.ep0buf.read 0 smbAddr.toNat) s.mrqPec s.trace
    ∃ b : I2c, Handler.write T fuel smbAddr smbCmd s =
        .ok r.ok { s with toI2c := b, mrqPec := r.pec } ∧
      b.trace = r.trace ∧ b.lastrdBit = s.lastrdBit := by
  intro r
  have h : wp (Handler.write T fuel smbAddr smbCmd)
      (fun ok s' => ok = r.ok ∧ r.Shown s s.toI2c [] s')
      (fun _ _ => False) s := by
    have hrun := ((computes_conditions s).andThen (computes_bytes hfuel hlen s)).andThen
      (computes_finish s) s.toI2c s.mrqPec r rfl
    have hbody : Handler.write T fuel smbAddr smbCmd = labels
        (do (do (do writeConditions T smbCmd; writeBytes T fuel smbAddr); writeFinish T smbCmd)
            return true) fun _ => stopFail T := by
      simp only [Handler.write, bind_assoc]
    rw [hbody, wp_labels, wp_bind]
    refine wp_mono hrun ?_ ?_
    · rintro - s' ⟨hok, hshown⟩
      exact ⟨hok.symm, hshown⟩
    · rintro - s' ⟨hok, b, rfl, htrace, hbit⟩
      simp only [stopFail, wp_bind, wp_i2cDo, wp_pure]
      exact ⟨hok.symm, i2cStop T b, rfl, by simpa using htrace, by simpa using hbit⟩
  obtain ⟨ok, s', hrun, rfl, b, rfl, htrace, hbit⟩ := exists_run_of_wp h
  exact ⟨b, hrun, by simpa using htrace, hbit⟩

end

end Smbusb
