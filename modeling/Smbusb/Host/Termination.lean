import Smbusb.Host.StaleSequences
import Smbusb.Logic.Fuel

/-!
# Termination

Which vendor requests return, from every state the firmware can reach and for every target.

A request `Returns` when it does for some fuel; more fuel changes nothing then
(`Returns.of_le`).  The states the firmware can reach are those behind requests that returned.

The counters of the loops are bytes.  Most of them are compared with a byte, and so end.  The
block requests compare theirs with `templen`, which a count byte has set (`Fx2.Ordered`).  The
counter of `WRITE` is compared with a word: above 255 the loop goes on as long as the target
ACKs (`WritesForever`), and this is all there is (`returns_iff`).
-/

namespace Smbusb

open Logic Prog Fw Handler

/-! ## Returning -/

/-- The request returns with this result, in this state. -/
def Returns (T : Target) (cmd : Byte) (setup : Setup) (s : Fx2) (ok : Bool) (s' : Fx2) : Prop :=
  ∃ fuel, handleVendorcommand T fuel cmd setup s = .ok ok s'

/-- The states behind requests that returned. -/
inductive Reachable (T : Target) : Fx2 → Prop
  | powerOn : Reachable T Fx2.init
  | request {s s' : Fx2} {ok : Bool} (r : VendorRequest) : Reachable T s →
      Returns T r.cmd r.setup (s.receive r) ok s' → Reachable T s'

/-- What `WRITE` sends when its counter wraps. -/
def Fx2.endless (s : Fx2) (n : Nat) : List Byte := (List.range n).map fun i => s.ep0buf (i % 256)

/-- A `WRITE` of more than 255 bytes, whose START succeeds when it asks for one, to a target
that ACKs every byte. -/
def Fx2.WritesForever (s : Fx2) (T : Target) (setup : Setup) : Prop :=
  255 < setup.value.toNat ∧ ∃ k,
    (hasFlag (toByte setup.index) writeCmdStartFirst = true →
      k < i2cMaxRetries ∧ T.StartsAfter s.trace k) ∧
    ∀ n, T.Acks (s.trace ++ conditionEvents (hasFlag (toByte setup.index) writeCmdStartFirst)
      (hasFlag (toByte setup.index) writeCmdRestartFirst) k) (s.endless n)

section

variable {T : Target} {fuel : Nat} {smbAddr smbCmd : Word} {s : Fx2}

/-! ## More fuel -/

/-- One rule for each construct with a loop; the rest of a handler has no fuel. -/
theorem below_sendBlock {fuel' : Nat} (hfuel : fuel ≤ fuel') (count : Fx2 → Byte)
    (more : Byte → Fx2 → Bool) (cell : Nat → Fw Byte) (done : Fx2 → Fx2) :
    Below (sendBlock T fuel smbAddr smbCmd count more cell done)
      (sendBlock T fuel' smbAddr smbCmd count more cell done) := by
  refine below_bind (below_refl _) fun _ => below_bind (below_refl _) fun _ =>
    below_bind (below_refl _) fun _ => below_bind (below_refl _) fun _ =>
    below_bind (below_refl _) fun _ => below_bind (below_refl _) fun _ => ?_
  exact below_bind (below_whileLoop hfuel _) fun _ => below_refl _

theorem below_readBlock {fuel' : Nat} (hfuel : fuel ≤ fuel') :
    Below (readBlock T fuel smbAddr smbCmd) (readBlock T fuel' smbAddr smbCmd) := by
  refine below_bind (below_refl _) fun _ => below_bind (below_refl _) fun s => below_ite ?_ ?_
  · refine below_bind (below_refl _) fun s => ?_
    exact below_bind (below_whileLoop hfuel _) fun _ => below_refl _
  · refine below_labels (below_bind (below_refl _) fun _ => ?_) fun _ => below_refl _
    refine below_bind (below_refl _) fun s => ?_
    exact below_bind (below_whileLoop hfuel _) fun _ => below_refl _

theorem below_writeBlock {fuel' : Nat} (hfuel : fuel ≤ fuel') :
    Below (writeBlock T fuel smbAddr smbCmd) (writeBlock T fuel' smbAddr smbCmd) := by
  refine below_bind (below_refl _) fun _ => below_bind (below_refl _) fun s =>
    below_ite ?_ (below_ite ?_ ?_)
  · refine below_bind (below_refl _) fun _ => below_bind (below_refl _) fun _ => ?_
    exact below_bind (below_whileLoop hfuel _) fun _ => below_refl _
  · refine below_bind (below_bind (below_refl _) fun s => below_ite ?_ (below_refl _)) fun _ =>
      below_bind (below_refl _) fun s => below_ite ?_ (below_refl _)
    · exact below_bind (below_whileLoop hfuel _) fun _ => below_refl _
    · exact below_labels (below_sendBlock hfuel _ _ _ _) fun _ => below_refl _
  · exact below_labels (below_sendBlock hfuel _ _ _ _) fun _ => below_refl _

theorem below_write {fuel' : Nat} (hfuel : fuel ≤ fuel') :
    Below (Handler.write T fuel smbAddr smbCmd) (Handler.write T fuel' smbAddr smbCmd) := by
  refine below_labels (below_bind (below_refl _) fun _ => below_bind ?_ fun _ => below_refl _)
    fun _ => below_refl _
  exact below_bind (below_whileLoop hfuel _) fun _ => below_refl _

theorem below_read {fuel' : Nat} (hfuel : fuel ≤ fuel') :
    Below (Handler.read T fuel smbAddr smbCmd) (Handler.read T fuel' smbAddr smbCmd) := by
  refine below_bind (below_refl _) fun s => ?_
  exact below_bind (below_whileLoop hfuel _) fun _ => below_refl _

variable (T) in
theorem below_handleVendorcommand {fuel' : Nat} (hfuel : fuel ≤ fuel')
    (cmd : Byte) (setup : Setup) :
    Below (handleVendorcommand T fuel cmd setup) (handleVendorcommand T fuel' cmd setup) := by
  have hdump : Below (dumpTemp fuel) (dumpTemp fuel') :=
    below_bind (below_whileLoop hfuel _) fun _ => below_refl _
  rw [handleVendorcommand, handleVendorcommand]
  repeat' first
    | exact below_refl _
    | exact below_readBlock hfuel
    | exact below_writeBlock hfuel
    | exact below_write hfuel
    | exact below_read hfuel
    | exact hdump
    | refine below_ite ?_ ?_

/-- A request that returns does so with any larger fuel. -/
theorem Returns.of_le {cmd : Byte} {setup : Setup} {ok : Bool} {s' : Fx2}
    (h : Returns T cmd setup s ok s') :
    ∃ n, ∀ fuel ≥ n, handleVendorcommand T fuel cmd setup s = .ok ok s' := by
  obtain ⟨n, hrun⟩ := h
  exact ⟨n, fun fuel hfuel => (below_handleVendorcommand T hfuel cmd setup).run hrun⟩

theorem Reachable.ordered (h : Reachable T s) : s.Ordered := by
  induction h with
  | powerOn => exact ⟨Nat.le_refl _, Nat.zero_le _⟩
  | @request s s' ok r _ hreturns ih =>
      obtain ⟨n, hrun⟩ := hreturns.of_le
      have hordered := ordered_handleVendorcommand T (Nat.le_max_right n 256) r.cmd r.setup
        (s := s.receive r) (ih.of_cursors rfl)
      rwa [endState_of_run (hrun _ (Nat.le_max_left n 256))] at hordered

/-! ## Requests without a loop -/

theorem stops_i2c {A : Type} {J : Prop} (f : I2c → A × I2c) : Stops J (i2c f) := stops_lift _

theorem stops_stopFail {J : Prop} : Stops J (stopFail T) :=
  stops_bind (stops_i2c _) fun _ => stops_pure _

/-- The requests with a loop. -/
def HasLoop (cmd : Byte) : Prop :=
  cmd = smbReadBlock ∨ cmd = smbWriteBlock ∨ cmd = smbWrite ∨ cmd = smbRead ∨ cmd = 0x66

theorem straight_stops {cmd : Byte} {setup : Setup} (hcmd : ¬ HasLoop cmd) :
    Stops False (handleVendorcommand T fuel cmd setup) := by
  simp only [HasLoop, not_or] at hcmd
  obtain ⟨hreadBlock, hwriteBlock, hwrite, hread, hdump⟩ := hcmd
  simp only [handleVendorcommand, if_neg hreadBlock, if_neg hwriteBlock, if_neg hwrite,
    if_neg hread, if_neg hdump, enablePec, interfaceId, firmwareVersion, sendByte, readByte,
    writeByte, readWord, writeWord, getClearPecFail, dumpCount, getMrqPecs, resetInterface,
    testAddressAck, testCommandAck, testCommandWrite, countAck]
  -- one rule for each construct and each primitive
  repeat' with_reducible first
    | exact stops_pure _
    | exact stops_get
    | exact stops_goto _
    | exact stops_i2c _
    | exact stops_lift _
    | exact stops_modify _
    | exact stops_stopFail
    | refine stops_bind ?_ fun _ => ?_
    | refine stops_orGoto ?_ _
    | refine stops_labels ?_ fun _ => ?_
    | refine stops_ite ?_ ?_
  all_goals first
    | exact stops_lift _
    | exact stops_modify _

/-! ## Loops over bytes -/

/-- The program ends, and does not leave by a jump. -/
def Ends (m : Fw Bool) (s : Fx2) : Prop := ∃ ok s', m s = .ok ok s'

theorem ends_of_wp {m : Fw Bool} (h : wp m (fun _ _ => True) (fun _ _ => False) s) : Ends m s := by
  obtain ⟨ok, s', hrun, -⟩ := exists_run_of_wp h
  exact ⟨ok, s', hrun⟩

/-- A loop whose byte counter goes up by one in each turn and stops below 255. -/
theorem wp_byteLoop {A : Type} (i : A → Byte) {cond : A → Fx2 → Bool} {body : A → Fw A}
    {Q : A → Fx2 → Prop} {E : Label → Fx2 → Prop} (I : Fx2 → Prop) (hfuel : 256 ≤ fuel)
    (hcond : ∀ x t, I t → cond x t = true → (i x).toNat < 255)
    (hbody : ∀ x t, I t → cond x t = true → wp (body x) (fun y t' => i y = i x + 1 ∧ I t') E t)
    (hend : ∀ x t, I t → Q x t) {x : A} (h0 : I s) : wp (whileLoop cond body fuel x) Q E s := by
  refine wp_whileLoop_variant (fun _ t => I t) (fun x _ => 255 - (i x).toNat) ?_
    (fun x t h _ => hend x t h) (by omega) h0
  intro x t ht hc
  have hlow := hcond x t ht hc
  refine wp_mono (hbody x t ht hc) (fun y t' hbody => ⟨hbody.2, ?_⟩) fun _ _ h => h
  rw [hbody.1, toNat_succ hlow]
  omega

theorem dumpTemp_ends (hfuel : 256 ≤ fuel) : Ends (dumpTemp fuel) s := by
  refine ends_of_wp ?_
  rw [dumpTemp, wp_bind]
  refine wp_byteLoop (fun i => i) (fun _ => True) hfuel ?_ ?_ ?_ trivial
  · intro i _ _ hc
    rw [decide_eq_true_eq, BitVec.lt_def] at hc
    have h64 : (64 : Byte).toNat = 64 := rfl
    omega
  · intro i t _ _
    exact ⟨rfl, trivial⟩
  · intro _ _ _
    exact trivial

variable (T smbAddr smbCmd) in
theorem read_returns (hfuel : 256 ≤ fuel) : Ends (Handler.read T fuel smbAddr smbCmd) s := by
  refine ends_of_wp ?_
  simp only [Handler.read, wp_bind, wp_get]
  generalize (if s.pecEnabled = true ∧ hasFlag (toByte smbCmd) readCmdLastRead = true then
    toByte smbAddr + 1 else toByte smbAddr) = j
  refine wp_byteLoop Prod.fst (fun _ => True) hfuel ?_ ?_ ?_ trivial
  · rintro ⟨i, rs⟩ _ _ hc
    rw [decide_eq_true_eq] at hc
    have hlow : i.toNat < j.toNat := hc
    have := j.isLt
    change i.toNat < 255
    omega
  · rintro ⟨i, rs⟩ t _ _
    refine wp_mono (wp_readTurn_at i j rs t) (fun v t' h => ⟨?_, trivial⟩) fun _ _ h => h.elim
    rw [h.1]
  · intro _ _ _
    exact trivial

/-! ## `WRITE` -/

theorem wp_writeFinish_any (t : Fx2) :
    wp (writeFinish T smbCmd) (fun _ _ => True) (fun _ _ => True) t := by
  simp only [writeFinish, wp_bind, wp_ite, wp_get, wp_orGoto, wp_i2c, wp_i2cDo, wp_pure]
  split
  · split
    · split <;> trivial
    · trivial
  · trivial

/-- A `WRITE` returns when its loop ends or is left. -/
theorem write_returns (h : wp (writeConditions T smbCmd) (fun _ t =>
      wp (writeBytes T fuel smbAddr) (fun _ _ => True) (fun _ _ => True) t)
      (fun _ _ => True) s) : Ends (Handler.write T fuel smbAddr smbCmd) s := by
  refine ends_of_wp ?_
  rw [Handler.write, wp_labels, wp_bind]
  refine wp_mono h (fun _ t ht => ?_) fun _ _ _ => trivial
  rw [wp_bind]
  refine wp_mono ht (fun _ t' _ => ?_) fun _ _ _ => trivial
  rw [wp_bind]
  exact wp_mono (wp_writeFinish_any t') (fun _ _ _ => trivial) fun _ _ _ => trivial

/-- One turn of the loop of `WRITE`. -/
def writeTurn (T : Target) (i : Byte) : Fw Byte := do
  let b ← ep0buf i.toNat
  orGoto (i2c (i2cByteout T b)) .wafail
  modify fun s => if s.pecEnabled then { s with mrqPec := pecCrc s.mrqPec b } else s
  return i + 1

theorem writeBytes_eq : writeBytes T fuel smbAddr = (do
    let _ ← whileLoop (fun (i : Byte) _ => i.setWidth 16 < smbAddr)
      (writeTurn T) fuel (0 : Byte)) :=
  rfl

/-- A turn goes on exactly when the target ACKs the byte. -/
theorem wp_writeTurn {Q : Byte → Fx2 → Prop} {E : Label → Fx2 → Prop} (i : Byte) (t : Fx2)
    (hack : (i2cByteout T (t.ep0buf i.toNat) t.toI2c).1 = true → ∀ t' : Fx2,
      t'.toI2c = (i2cByteout T (t.ep0buf i.toNat) t.toI2c).2 → t'.ep0buf = t.ep0buf → Q (i + 1) t')
    (hno : ¬ (i2cByteout T (t.ep0buf i.toNat) t.toI2c).1 = true → ∀ t', E .wafail t') :
    wp (writeTurn T i) Q E t := by
  simp only [writeTurn, wp_bind, wp_ep0buf, wp_orGoto, wp_i2c, wp_modify, wp_pure]
  split
  · next h =>
    refine hack h _ ?_ ?_
    · split <;> rfl
    · split <;> rfl
  · next h => exact hno h _

theorem writeBytes_of_byte (hfuel : 256 ≤ fuel) (hlen : smbAddr.toNat ≤ 255) (t : Fx2) :
    wp (writeBytes T fuel smbAddr) (fun _ _ => True) (fun _ _ => True) t := by
  rw [writeBytes_eq, wp_bind]
  refine wp_byteLoop (fun i => i) (fun _ => True) hfuel ?_ ?_ (fun _ _ _ => trivial) trivial
  · intro i _ _ hc
    rw [decide_eq_true_eq, BitVec.lt_def, BitVec.toNat_setWidth] at hc
    have := i.isLt
    omega
  · intro i t _ _
    exact wp_writeTurn i t (fun _ _ _ _ => ⟨rfl, trivial⟩) fun _ _ => trivial

/-- The counter of `WRITE` after so many turns, and what was sent in them. -/
structure TurnsWritten (T : Target) (tr : List Event) (s : Fx2) (k : Nat) (i : Byte) (t : Fx2) :
    Prop where
  i : i = BitVec.ofNat 8 k
  ep0buf : t.ep0buf = s.ep0buf
  trace : t.trace = tr ++ acked (s.endless k)
  acks : T.Acks tr (s.endless k)

theorem acks_append (tr : List Event) (a b : List Byte) :
    T.Acks tr (a ++ b) ↔ T.Acks tr a ∧ T.Acks (tr ++ acked a) b := by
  induction a generalizing tr with
  | nil => simp [Target.Acks, acked]
  | cons x a ih =>
      have hcons : tr ++ acked (x :: a) = tr ++ acked [x] ++ acked a := by simp [acked]
      rw [List.cons_append, Target.Acks, Target.Acks, ih, hcons]
      tauto

theorem endless_succ (n : Nat) : s.endless (n + 1) = s.endless n ++ [s.ep0buf (n % 256)] := by
  simp [Fx2.endless, List.range_succ]

/-- The next turn: the target ACKs its byte, or the loop is left. -/
theorem TurnsWritten.step {tr : List Event} {k : Nat} {i : Byte} {t : Fx2}
    {Q : Byte → Fx2 → Prop} {E : Label → Fx2 → Prop} (h : TurnsWritten T tr s k i t)
    (hQ : ∀ i' t', TurnsWritten T tr s (k + 1) i' t' → Q i' t')
    (hE : ¬ T.Acks tr (s.endless (k + 1)) → ∀ t', E .wafail t') : wp (writeTurn T i) Q E t := by
  have hbyte : t.ep0buf i.toNat = s.ep0buf (k % 256) := by
    rw [h.ep0buf, h.i, BitVec.toNat_ofNat]
  have hacks : T.Acks tr (s.endless (k + 1)) ↔
      (T.out t.trace (t.ep0buf i.toNat)).1 ≤ i2cTimeout ∧
        (T.out t.trace (t.ep0buf i.toNat)).2 = .ack := by
    rw [endless_succ, acks_append, and_iff_right h.acks, hbyte, h.trace, Target.Acks]
    exact and_iff_left trivial
  refine wp_writeTurn i t (fun hack t' hi2c hbuf => hQ _ _ ⟨?_, hbuf.trans h.ep0buf, ?_, ?_⟩)
    fun hno t' => hE (fun hall => hno (i2cByteout_of_ack (hacks.mp hall)).1) t'
  · rw [h.i, BitVec.ofNat_add]
    rfl
  · have htrace := (i2cByteout_of_ack (i2cByteout_acked hack)).2
    rw [hi2c, htrace, h.trace, hbyte, endless_succ]
    simp [acked]
  · exact hacks.mpr (i2cByteout_acked hack)

/-- The loop is left where the target does not ACK. -/
theorem writeBytes_of_refused {n : Nat} (hfuel : n < fuel) (hlen : 255 < smbAddr.toNat) {t : Fx2}
    (hbuf : t.ep0buf = s.ep0buf) (hno : ¬ T.Acks t.trace (s.endless n)) :
    wp (writeBytes T fuel smbAddr) (fun _ _ => True) (fun _ _ => True) t := by
  rw [writeBytes_eq, wp_bind]
  refine wp_whileLoop (TurnsWritten T t.trace s) n ?_ (fun _ _ h => absurd h.acks hno) hfuel
    ⟨rfl, hbuf, by simp [Fx2.endless, acked], trivial⟩
  intro k _ i t' h
  refine ⟨?_, h.step (fun _ _ h => h) fun _ _ => trivial⟩
  rw [decide_eq_true_eq, BitVec.lt_def, BitVec.toNat_setWidth]
  have := i.isLt
  omega

/-- The loop never ends when the target ACKs everything. -/
theorem writeBytes_hangs (hlen : 255 < smbAddr.toNat) {t : Fx2} (hbuf : t.ep0buf = s.ep0buf)
    (hall : ∀ n, T.Acks t.trace (s.endless n)) : Hangs (writeBytes T fuel smbAddr) t := by
  rw [writeBytes_eq]
  refine hangs_bind (hangs_whileLoop (fun i t' => ∃ k, TurnsWritten T t.trace s k i t') ?_ fuel
    ⟨0, rfl, hbuf, by simp [Fx2.endless, acked], trivial⟩)
  rintro i t' ⟨k, h⟩
  refine ⟨?_, ?_⟩
  · rw [decide_eq_true_eq, BitVec.lt_def, BitVec.toNat_setWidth]
    have := i.isLt
    omega
  · exact exists_run_of_wp (h.step (fun _ _ h' => ⟨k + 1, h'⟩) fun hno => absurd (hall _) hno)

/-- The conditions of a `WRITE` succeed with these events, and leave `EP0BUF` alone. -/
theorem writeConditions_iff {P : List Event → Prop} :
    wp (writeConditions T smbCmd) (fun _ t => t.ep0buf = s.ep0buf ∧ P t.trace)
        (fun _ _ => False) s ↔
      ∃ k, (hasFlag (toByte smbCmd) writeCmdStartFirst = true →
          k < i2cMaxRetries ∧ T.StartsAfter s.trace k) ∧
        P (s.trace ++ conditionEvents (hasFlag (toByte smbCmd) writeCmdStartFirst)
          (hasFlag (toByte smbCmd) writeCmdRestartFirst) k) := by
  generalize hstart : hasFlag (toByte smbCmd) writeCmdStartFirst = start
  generalize hrestart : hasFlag (toByte smbCmd) writeCmdRestartFirst = restart
  have hfinish : ∀ t : Fx2, wp (if restart = true then i2cDo i2cRestart else pure ())
      (fun _ t => t.ep0buf = s.ep0buf ∧ P t.trace) (fun _ _ => False) t ↔
        t.ep0buf = s.ep0buf ∧ P (t.trace ++ if restart = true then [.restart] else []) := by
    intro t
    cases restart with
    | true => exact Iff.rfl
    | false =>
        rw [if_neg Bool.false_ne_true, if_neg Bool.false_ne_true, List.append_nil]
        exact Iff.rfl
  cases start with
  | false =>
      simp only [writeConditions, hstart, hrestart, if_neg Bool.false_ne_true, hfinish]
      simp [conditionEvents]
  | true =>
      simp only [writeConditions, hstart, hrestart, if_true, wp_bind, wp_modify, wp_orGoto, wp_i2c,
        hfinish]
      generalize ht : (if s.pecEnabled = true then { s with mrqPec := 0 } else s : Fx2) = t
      have hbuf : t.ep0buf = s.ep0buf := by
        rw [← ht]
        split <;> rfl
      have hi2c : t.toI2c = s.toI2c := by
        rw [← ht]
        split <;> rfl
      have htries := i2cStartTries_iff (T := T)
        (P := fun tr => P (tr ++ if restart = true then [.restart] else [])) i2cMaxRetries s.toI2c
      rw [hi2c, if_false_right, hbuf, and_iff_right rfl, i2cStart, htries]
      simp [conditionEvents, and_assoc]

theorem writesForever_iff {setup : Setup} : s.WritesForever T setup ↔
    255 < setup.value.toNat ∧ wp (writeConditions T setup.index)
      (fun _ t => t.ep0buf = s.ep0buf ∧ ∀ n, T.Acks t.trace (s.endless n))
      (fun _ _ => False) s := by
  rw [writeConditions_iff (P := fun tr => ∀ n, T.Acks tr (s.endless n))]
  exact Iff.rfl

variable (T smbCmd) in
theorem stops_writeConditions : Stops True (writeConditions T smbCmd) := by
  rw [writeConditions]
  repeat' with_reducible first
    | exact stops_pure _
    | exact stops_i2c _
    | exact stops_modify _
    | refine stops_bind ?_ fun _ => ?_
    | refine stops_orGoto ?_ _
    | refine stops_ite ?_ ?_
  all_goals exact stops_lift _

theorem keeps_writeConditions : Keeps Fx2.ep0buf (writeConditions T smbCmd) := by
  refine keeps_of_within ?_
  rw [writeConditions]
  repeat' with_reducible first
    | exact within_pure _
    | refine within_bind ?_ fun _ => ?_
    | refine within_orGoto ?_ _
    | refine within_ite (fun _ => ?_) fun _ => ?_
  all_goals first
    | exact within_lift fun _ => rfl
    | exact within_modify fun s => by split <;> rfl

variable (T smbCmd) in
/-- The conditions succeed, or the loop is never reached. -/
theorem writeConditions_cases (s : Fx2) :
    (∃ t, writeConditions T smbCmd s = .ok () t) ∨
      ∀ Q, wp (writeConditions T smbCmd) Q (fun _ _ => True) s := by
  have hstops := stops_writeConditions T smbCmd s
  unfold wp at hstops ⊢
  cases hrun : writeConditions T smbCmd s with
  | ok _ t => exact .inl ⟨t, rfl⟩
  | error e t =>
      rw [hrun] at hstops
      cases e with
      | jump l => exact .inr fun _ => trivial
      | hang => exact hstops.elim

/-- Every other `WRITE` ends: its length fits the counter, no START is possible, or the target
does not ACK one of the bytes. -/
theorem write_ends_else {setup : Setup} (h : ¬ s.WritesForever T setup) :
    ∃ n, Ends (Handler.write T n setup.value setup.index) s := by
  rcases Nat.lt_or_ge 255 setup.value.toNat with hlong | hshort
  · rw [writesForever_iff, and_iff_right hlong] at h
    rcases writeConditions_cases T setup.index s with ⟨t, hrun⟩ | hleft
    · have hbuf : t.ep0buf = s.ep0buf := by
        rw [← endState_of_run hrun]
        exact keeps_writeConditions s
      rw [wp_of_run hrun, and_iff_right hbuf, not_forall] at h
      obtain ⟨n, hno⟩ := h
      refine ⟨n + 1, write_returns ((wp_of_run hrun).mpr ?_)⟩
      exact writeBytes_of_refused (Nat.lt_succ_self n) hlong hbuf hno
    · exact ⟨0, write_returns (hleft _)⟩
  · exact ⟨256, write_returns (wp_mono (stops_writeConditions T setup.index s)
      (fun _ t _ => writeBytes_of_byte (Nat.le_refl _) hshort t) fun _ _ _ => trivial)⟩

end

/-! ## Every request -/

/-- Every request that is not such a `WRITE` returns. -/
theorem returns_of_ordered (T : Target) {s : Fx2} (hs : s.Ordered) (cmd : Byte) (setup : Setup)
    (h : ¬ (cmd = smbWrite ∧ s.WritesForever T setup)) : ∃ ok s', Returns T cmd setup s ok s' := by
  by_cases hloop : HasLoop cmd
  · rcases hloop with rfl | rfl | rfl | rfl | rfl
    · obtain ⟨ok, s', hrun, -⟩ := readBlock_cases T setup.value setup.index
        (Nat.le_refl 256) hs
      exact ⟨ok, s', 256, hrun⟩
    · obtain ⟨ok, s', hrun, -⟩ := writeBlock_cases T setup.value setup.index
        (Nat.le_refl 256) hs
      exact ⟨ok, s', 256, hrun⟩
    · obtain ⟨n, ok, s', hrun⟩ := write_ends_else fun hforever => h ⟨rfl, hforever⟩
      exact ⟨ok, s', n, hrun⟩
    · obtain ⟨ok, s', hrun⟩ := read_returns T setup.value setup.index (s := s)
        (Nat.le_refl 256)
      exact ⟨ok, s', 256, hrun⟩
    · obtain ⟨ok, s', hrun⟩ := dumpTemp_ends (s := s) (Nat.le_refl 256)
      exact ⟨ok, s', 256, hrun⟩
  · obtain ⟨ok, s', hrun⟩ := (straight_stops hloop).run s
    exact ⟨ok, s', 0, hrun⟩

/-- A `WRITE` whose bytes are all ACKed does not, whatever its fuel is. -/
theorem write_hangs {T : Target} {s : Fx2} {setup : Setup} (h : s.WritesForever T setup)
    (fuel : Nat) : Hangs (Handler.write T fuel setup.value setup.index) s := by
  obtain ⟨hlong, hcond⟩ := writesForever_iff.mp h
  obtain ⟨_, t, hrun, hbuf, hall⟩ := exists_run_of_wp hcond
  exact hangs_labels (hangs_of_run hrun (hangs_bind (writeBytes_hangs hlong hbuf hall)))

/-- The vendor requests that return: all but the `WRITE`s of more than 255 bytes to a target
that ACKs whatever is sent to it. -/
theorem returns_iff (T : Target) {s : Fx2} (hs : Reachable T s) (r : VendorRequest) :
    (∃ ok s', Returns T r.cmd r.setup (s.receive r) ok s') ↔
      ¬ (r.cmd = smbWrite ∧ (s.receive r).WritesForever T r.setup) := by
  constructor
  · rintro ⟨ok, s', fuel, hrun⟩ ⟨hcmd, hforever⟩
    rw [hcmd] at hrun
    exact (write_hangs hforever fuel).not_ok hrun
  · have hordered : (s.receive r).Ordered := hs.ordered.of_cursors rfl
    exact returns_of_ordered T hordered r.cmd r.setup

/-- A target that ACKs everything lets a `WRITE` of 255 bytes end. -/
theorem returns_255 : ∃ ok s', Returns (Target.answers []) smbWrite ⟨255, 0⟩
    (Fx2.init.receive ⟨0, smbWrite, ⟨255, 0⟩, []⟩) ok s' := by
  refine (returns_iff (Target.answers []) .powerOn ⟨0, smbWrite, ⟨255, 0⟩, []⟩).mpr ?_
  rintro ⟨-, hlong, -⟩
  exact absurd hlong (by decide)

theorem acks_answers (bs : List Byte) (tr : List Event) (data : List Byte) :
    (Target.answers bs).Acks tr data := by
  induction data generalizing tr with
  | nil => trivial
  | cons b data ih => exact ⟨⟨Nat.zero_le _, rfl⟩, ih _⟩

/-- The same target holds a `WRITE` of 256 bytes forever. -/
theorem not_returns_256 : ¬ ∃ ok s', Returns (Target.answers []) smbWrite ⟨256, 0⟩
    (Fx2.init.receive ⟨0, smbWrite, ⟨256, 0⟩, []⟩) ok s' := by
  rintro ⟨ok, s', fuel, hrun⟩
  have hforever : (Fx2.init.receive ⟨0, smbWrite, ⟨256, 0⟩, []⟩).WritesForever (Target.answers [])
      ⟨256, 0⟩ :=
    ⟨by decide, 0, fun h => absurd h (by decide), fun n => acks_answers _ _ _⟩
  exact (write_hangs hforever fuel).not_ok hrun

end Smbusb
