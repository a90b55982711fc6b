import Smbusb.Firmware.Probing
import Smbusb.Firmware.ReadRequests

/-!
# Releasing the bus

Whether a read or a test request leaves the bus free, and how long a reply it reports.

The test requests end in one `i2c_stop`.  A read of a byte or a word sets STOP before it
fetches its last byte, or in `i2c_stop` when it gives up.  A block read takes the last byte
from an index comparison: `i==blocklen-1`.  Its `blocklen` is a `BYTE` that holds the count
and two more, so the count 254 makes it 0.  The loop then ends behind the count, with the
next byte received and no STOP set, and the reply length, `blocklen-1`, is 255.

`released_iff` says that this is the only way for one of these requests to keep the bus.
-/

namespace Smbusb

open Logic Prog Fw Handler

/-! ## Address phases on the bus -/

section

variable {T : Target} {smbAddr smbCmd : Word}

/-- A START that succeeded is on the bus, and only then. -/
theorem i2cStart_events (s : I2c) :
    ∃ ext, Extends s ext (i2cStart T s).2 ∧ (.start false ∈ ext ↔ (i2cStart T s).1 = true) := by
  obtain ⟨k, hk⟩ := i2cStartTries_extends T i2cMaxRetries s
  refine ⟨_, hk, ?_⟩
  rw [i2cStart]
  cases (i2cStartTries T i2cMaxRetries s).1 <;> simp

variable (T smbAddr smbCmd) in
/-- What is done behind a START does not take it back. -/
theorem addressRead_events (s : I2c) :
    ∃ ext, Extends s ext (addressRead T smbAddr smbCmd s).2 ∧
      (.start false ∈ ext ↔ (addressRead T smbAddr smbCmd s).1 ≠ none) := by
  obtain ⟨ext, hext, hstart⟩ := i2cStart_events (T := T) s
  simp only [addressRead]
  generalize i2cStart T s = r at hext hstart
  obtain ⟨started, b⟩ := r
  cases started with
  | false => exact ⟨ext, hext, by simpa using hstart⟩
  | true =>
      simp only [if_true] at hstart ⊢
      obtain ⟨ext₁, hext₁, -⟩ := sendAll_extends (T := T) [toByte smbAddr, toByte smbCmd] b
      generalize sendAll T [toByte smbAddr, toByte smbCmd] b = r₁ at hext₁
      obtain ⟨acked, b₁⟩ := r₁
      cases acked with
      | false => exact ⟨ext ++ ext₁, hext.trans hext₁, by simp [hstart]⟩
      | true =>
          obtain ⟨a, -, hext₂⟩ := i2cByteout_extends T (toByte (smbAddr + 1)) (i2cRestart b₁)
          have hrestart : Extends b₁ [.restart] (i2cRestart b₁) := rfl
          exact ⟨_, ((hext.trans hext₁).trans hrestart).trans hext₂, by simp [hstart]⟩

end

/-! ## The count that wraps -/

/-- The trace at which a block read waits for its count. -/
def I2c.countAsked (b : I2c) : List Event := b.trace ++ [Event.fetch b.i2dat]

/-- The trace at which a block read waits for the byte behind the count `c`. -/
def I2c.nextAsked (b : I2c) (c : Byte) : List Event :=
  b.trace ++ [Event.fetch b.i2dat, Event.recv c b.lastrdBit, Event.fetch c]

/-- The count `c` and the byte behind it come in time. -/
def CountArrives (T : Target) (b : I2c) (c : Byte) : Prop :=
  (T.recv b.countAsked).1 ≤ i2cTimeout ∧ (T.recv (b.nextAsked c)).1 ≤ i2cTimeout

/-- The target ACKs the address phase of a block read and answers with the count 254 and a
byte more, both in time. -/
def CountWraps (T : Target) (smbAddr smbCmd : Word) (s : I2c) : Prop :=
  ∃ b, addressRead T smbAddr smbCmd s = (some true, b) ∧ (T.recv b.countAsked).2 = 0xFE ∧
    CountArrives T b 0xFE

/-- The first call of a block read waits for two bytes.  It hands over the first one if both
come in time, and 0 if not. -/
theorem countCall_cases {T : Target} {b : I2c} {c : Byte} (hc : (T.recv b.countAsked).2 = c) :
    (CountArrives T b c ∧ (countCall T b).1 = c ∧
      ∃ x, (countCall T b).2.trace = b.nextAsked c ++ [Event.recv x false]) ∨
    (¬ CountArrives T b c ∧ (countCall T b).1 = 0) := by
  by_cases h : CountArrives T b c
  · obtain ⟨h₀, h₁⟩ := h
    refine .inl ⟨⟨h₀, h₁⟩, ?_, (T.recv (b.nextAsked c)).2, ?_⟩ <;> rw [I2c.nextAsked] at h₁ <;>
      rw [I2c.countAsked] at h₀ hc
    · simp [countCall, i2cBytein, i2cByteinRest,
      I2c.fetch, I2c.log, I2c.awaitByte, I2c.await, h₀, hc,
        h₁]
    · simp [countCall, i2cBytein, i2cByteinRest,
      I2c.fetch, I2c.log, I2c.awaitByte, I2c.await, h₀, hc,
        h₁, I2c.nextAsked]
  · refine .inr ⟨h, ?_⟩
    rw [CountArrives, I2c.countAsked, I2c.nextAsked, not_and] at h
    rw [I2c.countAsked] at hc
    by_cases h₀ : (T.recv (b.trace ++ [Event.fetch b.i2dat])).1 ≤ i2cTimeout
    · have h₁ := h h₀
      simp [countCall, i2cBytein, i2cByteinRest,
        I2c.fetch, I2c.log, I2c.awaitByte, I2c.await, h₀, hc,
        h₁]
    · simp [countCall, i2cBytein, I2c.fetch, I2c.log, I2c.awaitByte, I2c.await, h₀]

/-- The count wraps when the target is addressed and the first call hands over 254. -/
theorem countWraps_iff {T : Target} {smbAddr smbCmd : Word} {s b : I2c} {r : Option Bool}
    (haddr : addressRead T smbAddr smbCmd s = (r, b)) :
    CountWraps T smbAddr smbCmd s ↔ r = some true ∧ (countCall T b).1 = 0xFE := by
  constructor
  · rintro ⟨b₁, haddr₁, hc, harrive⟩
    rw [haddr, Prod.mk.injEq] at haddr₁
    obtain ⟨hr, rfl⟩ := haddr₁
    rcases countCall_cases hc with ⟨-, h, -⟩ | ⟨h, -⟩
    · exact ⟨hr, h⟩
    · exact absurd harrive h
  · rintro ⟨hr, h⟩
    refine ⟨b, by rw [haddr, hr], ?_⟩
    rcases countCall_cases (T := T) (b := b) rfl with ⟨harrive, hc, -⟩ | ⟨-, h0⟩
    · rw [h] at hc
      exact ⟨hc.symm, by rw [hc]; exact harrive⟩
    · rw [h0] at h
      exact absurd h (by decide)

/-! ## The test of a command that is written -/

/-- The bytes of a `TEST_COMMAND_WRITE`. -/
def writeProbe (smbAddr smbCmd : Word) : List Byte :=
  [toByte smbAddr, toByte smbCmd, 3, 0, 0, 0, 0]

/-- `TEST_COMMAND_WRITE` is a probe that counts the ACKs on its way. -/
theorem testCommandWrite_probes (T : Target) (smbAddr smbCmd : Word) (s : Fx2) :
    ∃ ok s', testCommandWrite T smbAddr smbCmd s = .ok ok s' ∧
      s'.toI2c = (probeFrame T (writeProbe smbAddr smbCmd) s.toI2c).2 ∧
      (ok = true → s'.ep0bcl = 1) := by
  refine exists_run_of_wp ?_
  simp only [testCommandWrite, wp_bind, wp_setEp0buf, wp_i2c, probeFrame, writeProbe, sendAll]
  generalize i2cStart T s.toI2c = r
  obtain ⟨started, b⟩ := r
  cases started with
  | false => exact ⟨rfl, fun h => Bool.noConfusion h⟩
  | true =>
  simp only [if_true, countAck, wp_bind, wp_labels, wp_orGoto, wp_i2c, wp_i2cDo, wp_ep0buf,
    wp_setEp0buf, wp_setEp0bcl, wp_pure]
  -- One byte after the other, until one is not ACKed.
  cases h₁ : (i2cByteout T (toByte smbAddr) b).1 with
  | false => exact ⟨rfl, fun _ => trivial⟩
  | true =>
  generalize (i2cByteout T (toByte smbAddr) b).2 = b₁
  simp only [if_true]
  cases h₂ : (i2cByteout T (toByte smbCmd) b₁).1 with
  | false => exact ⟨rfl, fun _ => trivial⟩
  | true =>
  generalize (i2cByteout T (toByte smbCmd) b₁).2 = b₂
  simp only [if_true]
  cases h₃ : (i2cByteout T 3 b₂).1 with
  | false => exact ⟨rfl, fun _ => trivial⟩
  | true =>
  generalize (i2cByteout T 3 b₂).2 = b₃
  simp only [if_true]
  cases h₄ : (i2cByteout T 0 b₃).1 with
  | false => exact ⟨rfl, fun _ => trivial⟩
  | true =>
  generalize (i2cByteout T 0 b₃).2 = b₄
  simp only [if_true]
  cases h₅ : (i2cByteout T 0 b₄).1 with
  | false => exact ⟨rfl, fun _ => trivial⟩
  | true =>
  generalize (i2cByteout T 0 b₄).2 = b₅
  simp only [if_true]
  cases h₆ : (i2cByteout T 0 b₅).1 with
  | false => exact ⟨rfl, fun _ => trivial⟩
  | true =>
  generalize (i2cByteout T 0 b₅).2 = b₆
  simp only [if_true]
  cases h₇ : (i2cByteout T 0 b₆).1 with
  | false => exact ⟨rfl, fun _ => trivial⟩
  | true => exact ⟨rfl, fun _ => trivial⟩

/-! ## Requests -/

/-- The requests that read from a command or test an address or a command. -/
inductive BusRequest where
  | read (kind : ReadKind)
  | testAddressAck
  | testCommandAck
  | testCommandWrite
deriving DecidableEq, Repr

/-- The request code. -/
def BusRequest.code : BusRequest → Byte
  | read kind => kind.code
  | testAddressAck => smbTestAddressAck
  | testCommandAck => smbTestCommandAck
  | testCommandWrite => smbTestCommandWrite

/-- A request that took the bus has left it free, and a reply it reports fits `EP0BUF`. -/
structure Released (s : Fx2) (ok : Bool) (s' : Fx2) : Prop where
  free : ∃ ext, Extends s.toI2c ext s'.toI2c ∧ (.start false ∈ ext → busHeld s'.trace = false)
  fits : ok = true → s'.ep0bcl.toNat ≤ 64

section

variable {T : Target} {smbAddr smbCmd : Word} {s s' : Fx2} {ok : Bool} {kind : ReadKind}

theorem released_of_frees {ext : List Event} (hext : Extends s.toI2c ext s'.toI2c)
    (hfrees : Frees ext) (hfits : ok = true → s'.ep0bcl.toNat ≤ 64) : Released s ok s' :=
  ⟨⟨ext, hext, fun _ => by rw [hext]; exact busHeld_of_frees hfrees⟩, hfits⟩

theorem released_of_stop {ext : List Event} {b : I2c} (hext : Extends s.toI2c ext b)
    (htrace : s'.trace = (i2cStop T b).trace) (hfits : ok = true → s'.ep0bcl.toNat ≤ 64) :
    Released s ok s' := by
  have hstop : Extends s.toI2c (ext ++ [.stop]) s'.toI2c :=
    htrace.trans (hext.trans (i2cStop_extends T b))
  exact released_of_frees hstop (frees_append frees_stop) hfits

/-- A probe sets STOP behind its bytes, unless its START failed. -/
theorem released_of_probe {bytes : List Byte} (hbus : s'.toI2c = (probeFrame T bytes s.toI2c).2)
    (hfits : ok = true → s'.ep0bcl = 1) : Released s ok s' := by
  have hfits' : ok = true → s'.ep0bcl.toNat ≤ 64 := by
    intro h
    rw [hfits h]
    decide
  obtain ⟨ext, hext, hstart⟩ := i2cStart_events (T := T) s.toI2c
  rw [probeFrame] at hbus
  generalize i2cStart T s.toI2c = r at hext hstart hbus
  obtain ⟨started, b⟩ := r
  cases started with
  | false =>
      refine ⟨⟨ext, by rw [hbus]; exact hext, fun h => ?_⟩, hfits'⟩
      exact Bool.noConfusion (hstart.mp h)
  | true =>
      simp only [if_true] at hbus
      obtain ⟨ext₁, hext₁, -⟩ := sendAll_extends (T := T) bytes b
      exact released_of_stop (hext.trans hext₁) (congrArg I2c.trace hbus) hfits'

theorem Fx2.probed_ep0bcl (s : Fx2) (r : Option Bool × I2c) (h : r.1.isSome = true) :
    (s.probed r).ep0bcl = 1 := by
  unfold Fx2.probed
  split
  · next hnone => simp [hnone] at h
  · rfl

/-- A read of all its bytes has set STOP. -/
theorem transfer_frees {n : Nat} (hn : 0 < n) (b : I2c) :
    ∃ ext, Extends b ext (transfer T true true n n b).2 ∧ Frees ext := by
  obtain ⟨ext, hext, -, hfrees⟩ :=
    transfer_moves T true true hn (Nat.le_refl n) b
  exact ⟨ext, hext, hfrees (by simp)⟩

theorem ReadKind.calls_pos (kind : ReadKind) (on : Bool) (c : Byte) : 0 < kind.calls on c := by
  cases kind <;> simp [ReadKind.calls]

theorem ReadKind.replies_le (kind : ReadKind) (c : Byte) : kind.replies c ≤ 64 := by
  cases kind <;> simp [ReadKind.replies]

theorem countCall_extends (b : I2c) : ∃ ext, Extends b ext (countCall T b).2 := by
  obtain ⟨v, b', ext, hrun, hext, -⟩ := i2cBytein_moves T true false false false b
  have hcount : countCall T b = (v, b') := hrun
  rw [hcount]
  exact ⟨ext, hext⟩

theorem not_wraps_of_counts {b : I2c}
    (haddr : addressRead T smbAddr smbCmd s.toI2c = (some true, b))
    (hgood : kind = .block → (countCall T b).1 ≠ 0 ∧ (countCall T b).1 < 0xFE) :
    ¬ (kind = .block ∧ CountWraps T smbAddr smbCmd s.toI2c) := by
  rintro ⟨hkind, hwraps⟩
  have hlt := (hgood hkind).2
  rw [((countWraps_iff haddr).mp hwraps).2] at hlt
  exact absurd hlt (by decide)

/-- A read request releases the bus unless the count wraps. -/
theorem ReadEnd.isReleased_iff (h : ReadEnd T kind smbAddr smbCmd s ok s') :
    Released s ok s' ↔ ¬ (kind = .block ∧ CountWraps T smbAddr smbCmd s.toI2c) := by
  obtain ⟨ext, hext, hstart⟩ := addressRead_events T smbAddr smbCmd s.toI2c
  cases h with
  | noStart haddr htrace _ =>
      rw [haddr] at hext hstart
      have hnot : .start false ∉ ext := fun h => hstart.mp h rfl
      refine iff_of_true ?_ (fun h => by simp [countWraps_iff haddr] at h)
      cases kind with
      | block => exact ⟨⟨ext, htrace.trans hext, fun h => absurd h hnot⟩,
        fun h => Bool.noConfusion h⟩
      | byte => exact released_of_stop hext htrace fun h => Bool.noConfusion h
      | word => exact released_of_stop hext htrace fun h => Bool.noConfusion h
  | nack haddr htrace _ =>
      rw [haddr] at hext
      refine iff_of_true ?_ (fun h => by simp [countWraps_iff haddr] at h)
      exact released_of_stop hext htrace fun h => Bool.noConfusion h
  | @refused b b' c _ haddr _ hcount hbad htrace _ =>
      rw [haddr] at hext
      obtain ⟨ext₁, hext₁⟩ := countCall_extends (T := T) b
      rw [hcount] at hext₁
      have hc : c ≠ 0xFE := by rcases hbad with rfl | rfl <;> decide
      refine iff_of_true ?_ fun h => hc ?_
      · exact released_of_stop (hext.trans hext₁) htrace fun h => Bool.noConfusion h
      · have hwraps := ((countWraps_iff haddr).mp h.2).2
        rwa [hcount] at hwraps
  | @wrapped b b' _ _ haddr hkind hcount _ htrace _ _ =>
      rw [haddr] at hext hstart
      refine iff_of_false ?_
        (not_not_intro ⟨hkind, (countWraps_iff haddr).mpr ⟨rfl, by rw [hcount]⟩⟩)
      rintro ⟨⟨ext', hext', hfree⟩, -⟩
      rcases countCall_cases (T := T) (b := b) rfl with ⟨-, -, x, hx⟩ | ⟨-, h0⟩
      · -- The trace ends with a byte received, behind the START.
        rw [hcount, I2c.nextAsked, List.append_assoc] at hx
        have htr : s'.trace = s.trace ++ (ext ++ _) := htrace.trans (hx.trans
          (by rw [show b.trace = s.trace ++ ext from hext, List.append_assoc]))
        have hsame : ext' = ext ++ _ := List.append_cancel_left (hext'.symm.trans htr)
        have hheld := hfree (by rw [hsame]; exact List.mem_append_left _ (hstart.mpr (by simp)))
        rw [htr, busHeld, List.foldl_append, List.foldl_append] at hheld
        simp [Event.holds] at hheld
      · rw [hcount] at h0
        exact absurd h0 (show (0xFE : Byte) ≠ 0 by decide)
  | @mismatch b b' vs _ haddr hgood hrow _ _ htrace _ =>
      rw [haddr] at hext
      obtain ⟨ext₁, hext₁, hfrees⟩ := transfer_frees (T := T)
        (kind.calls_pos s.pecEnabled (countCall T b).1) b
      rw [hrow] at hext₁
      refine iff_of_true ?_ (not_wraps_of_counts haddr hgood)
      cases kind with
      | block =>
          exact released_of_frees (htrace.trans (hext.trans hext₁)) (frees_append hfrees)
            fun h => Bool.noConfusion h
      | byte => exact released_of_stop (hext.trans hext₁) htrace fun h => Bool.noConfusion h
      | word => exact released_of_stop (hext.trans hext₁) htrace fun h => Bool.noConfusion h
  | @done b b' vs _ haddr hgood hrow _ htrace _ hbcl _ =>
      rw [haddr] at hext
      obtain ⟨ext₁, hext₁, hfrees⟩ := transfer_frees (T := T)
        (kind.calls_pos s.pecEnabled (countCall T b).1) b
      rw [hrow] at hext₁
      refine iff_of_true ?_ (not_wraps_of_counts haddr hgood)
      exact released_of_frees (htrace.trans (hext.trans hext₁)) (frees_append hfrees)
        fun _ => hbcl.trans_le (kind.replies_le _)

/-- The requests that read or test, from any state in which a block read is a fresh one: each
of them releases the bus, unless it is a block read whose count wraps. -/
theorem released_iff (T : Target) {fuel : Nat} (hfuel : 256 ≤ fuel) (request : BusRequest)
    (setup : Setup) (s : Fx2) (hidle : request = .read .block → s.Idle) :
    (∃ ok s', handleVendorcommand T fuel request.code setup s = .ok ok s' ∧ Released s ok s') ↔
      ¬ (request = .read .block ∧ CountWraps T setup.value setup.index s.toI2c) := by
  cases request with
  | read kind =>
      obtain ⟨ok, s', hrun, hend⟩ := readRequest_ends T hfuel kind setup
        (s := s) (fun h => hidle (by rw [h]))
      have hkind : BusRequest.read kind = .read .block ↔ kind = .block := by simp
      rw [hkind, ← hend.isReleased_iff]
      refine ⟨?_, fun h => ⟨ok, s', hrun, h⟩⟩
      rintro ⟨ok₁, s₁, hrun₁, h⟩
      obtain ⟨rfl, rfl⟩ := EStateM.Result.ok.inj (hrun.symm.trans hrun₁)
      exact h
  | testAddressAck =>
      refine iff_of_true ⟨_, _, testAddressAck_eq setup.value s, ?_⟩ (fun h => by simp at h)
      exact released_of_probe (Fx2.probed_toI2c s _) (Fx2.probed_ep0bcl s _)
  | testCommandAck =>
      refine iff_of_true ⟨_, _, testCommandAck_eq setup.value setup.index s, ?_⟩
        (fun h => by simp at h)
      exact released_of_probe (Fx2.probed_toI2c s _) (Fx2.probed_ep0bcl s _)
  | testCommandWrite =>
      obtain ⟨ok, s', hrun, hbus, hbcl⟩ := testCommandWrite_probes T setup.value setup.index s
      exact iff_of_true ⟨ok, s', hrun, released_of_probe hbus hbcl⟩ (fun h => by simp at h)

end

/-- A block read of one byte releases the bus. -/
theorem released_one : ∃ ok s', handleVendorcommand (Target.answers [1, 5, 7]) 256
    (BusRequest.read .block).code ⟨0x16, 0x20⟩ Fx2.init = .ok ok s' ∧
      Released Fx2.init ok s' := by
  refine (released_iff (Target.answers [1, 5, 7]) (Nat.le_refl 256) (.read .block) ⟨0x16, 0x20⟩
    Fx2.init (fun _ => rfl)).mpr ?_
  rintro ⟨-, b, -, hc, -⟩
  have hcount : ∀ n, ([1, 5, 7] : List Byte).getD n 0 ≠ 0xFE := by
    intro n
    rcases n with _ | _ | _ | n <;> simp
  exact hcount _ hc

/-- A block read whose count is 254 keeps it. -/
theorem not_released_254 : ¬ ∃ ok s', handleVendorcommand (Target.answers [0xFE, 0]) 256
    (BusRequest.read .block).code ⟨0x16, 0x20⟩ Fx2.init = .ok ok s' ∧
      Released Fx2.init ok s' := by
  rintro ⟨ok, s', hrun, hreleased⟩
  obtain ⟨ok₁, s₁, hrun₁, hend⟩ := readRequest_ends (Target.answers [0xFE, 0]) (Nat.le_refl 256)
    .block ⟨0x16, 0x20⟩ (s := Fx2.init) (fun _ => rfl)
  obtain ⟨rfl, rfl⟩ := EStateM.Result.ok.inj (hrun.symm.trans hrun₁)
  refine hend.isReleased_iff.mp hreleased ⟨rfl, ?_⟩
  refine (countWraps_iff (r := some true) (b := (addressRead (Target.answers [0xFE, 0]) 0x16 0x20
    Fx2.init.toI2c).2) ?_).mpr ⟨rfl, by decide +kernel⟩
  exact Prod.ext (by decide +kernel) rfl

end Smbusb
