import Smbusb.Firmware.Receiving
import Smbusb.Firmware.Transaction

/-!
# Arbitrary reads in the firmware

What a `READ` request gets from a responsive target, whose bytes are a stream `f`.

An arbitrary read takes several requests, and the pipeline of `i2c_bytein` goes on
from one to the next: the byte a request ends with has been received, but is fetched
by the next request.  So a request is described from the byte `g` of the stream on,
with the turns of the whole read (`readBytes_run`).

With the PEC on, the last request takes one turn more than it has bytes.  That turn
keeps its byte in `rcv_pec`.
-/

namespace Smbusb

open Logic Prog Fw Handler

/-! ## Flags -/

/-- The flags of a `READ` request. -/
def readFlags (first last : Bool) : Byte :=
  (if first then readCmdFirstRead else 0) ||| if last then readCmdLastRead else 0

theorem hasFlag_readFlags (first last : Bool) :
    hasFlag (readFlags first last) readCmdFirstRead = first ∧
      hasFlag (readFlags first last) readCmdLastRead = last := by
  cases first <;> cases last <;> decide

theorem readFlags_clear (first last : Bool) :
    readFlags first last &&& ~~~readCmdFirstRead = readFlags false last := by
  cases first <;> cases last <;> decide

/-- The turns of a request of `n` bytes. -/
def readTurns (on last : Bool) (n : Nat) : Nat := n + (on && last).toNat

theorem readTurns_le (on last : Bool) (n : Nat) : readTurns on last n ≤ n + 1 :=
  Nat.add_le_add_left (Bool.toNat_le _) n

/-- The state after `k` turns of a request of `n` bytes, the first of them byte `g`. -/
def Fx2.readSoFar (s : Fx2) (f : Nat → Byte) (g n k : Nat) (b : I2c) : Fx2 :=
  { s with
    toI2c := b
    ep0buf := s.ep0buf.write 0 (Mem.read f g (min n k))
    mrqPec := pecOver s.pecEnabled (Mem.read f g (min n k)) s.mrqPec
    rcvPec := if n < k then f (g + n) else s.rcvPec }

/-! ## One turn -/

section

variable {T : Target} {f : Nat → Byte} {tr : List Event} {b b' : I2c} {g n k : Nat} {s : Fx2}
  {first last : Bool} {i j : Byte}

theorem readSoFar_zero : s.readSoFar f g n 0 s.toI2c = s := by
  simp [Fx2.readSoFar, pecOver]

/-- Storing one more byte, and its PEC when it is on. -/
theorem readSoFar_succ (hk : k < n) (hn : n ≤ 64) :
    { s.readSoFar f g n k b with
      ep0buf := Function.update (s.readSoFar f g n k b).ep0buf k (f (g + k))
      mrqPec := pecOver s.pecEnabled [f (g + k)] (s.readSoFar f g n k b).mrqPec
      oob := s.oob || decide (ep0Size ≤ k) } = s.readSoFar f g n (k + 1) b := by
  have hupd := Mem.update_write s.ep0buf 0 (Mem.read f g k) (f (g + k))
  rw [Mem.length_read, Nat.zero_add, ← Mem.read_succ] at hupd
  have h1 : min n k = k := by omega
  have h2 : min n (k + 1) = k + 1 := by omega
  have h3 : ¬ n < k := by omega
  have h4 : ¬ n < k + 1 := by omega
  have hin : ¬ ep0Size ≤ k := by simp only [ep0Size]; omega
  simp only [Fx2.readSoFar, h1, h2, h3, h4, hin, hupd, decide_false, Bool.or_false, if_false,
    ← pecOver_append, ← Mem.read_succ]

/-- The turn behind the bytes keeps the PEC. -/
theorem readSoFar_pec :
    { s.readSoFar f g n n b with rcvPec := f (g + n) } = s.readSoFar f g n (n + 1) b := by
  have h : min n (n + 1) = n := by omega
  simp only [Fx2.readSoFar, Nat.min_self, h, Nat.lt_succ_self, if_true]

/-- A turn stores its byte, or keeps it as the PEC. -/
theorem wp_readTurn {Q : Byte × Byte → Fx2 → Prop} {E : Label → Fx2 → Prop} (hn : n ≤ 64)
    (hi : i.toNat = k) (hj : j.toNat = readTurns s.pecEnabled last n) (hk : k < j.toNat)
    (hbyte : i2cBytein T first (first && j == 1) (last && k + 2 == j.toNat)
      (last && k + 1 == j.toNat) b = (f (g + k), b'))
    (hQ : Q (i + 1, readFlags false last) (s.readSoFar f g n (k + 1) b')) :
    wp (readTurn T j (i, readFlags first last)) Q E (s.readSoFar f g n k b) := by
  obtain ⟨h1, h2⟩ := hasFlag_readFlags first last
  simp only [readTurn, h1, h2, readFlags_clear, wp_bind, wp_i2c, wp_get, hi]
  have hcall : i2cBytein T first (first && j == 1) (last && k + 2 == j.toNat)
      (last && k + 1 == j.toNat) (s.readSoFar f g n k b).toI2c = (f (g + k), b') := hbyte
  rw [hcall]
  have hlen : k < n ∨ k = n ∧ s.pecEnabled = true ∧ last = true := by
    rw [hj, readTurns] at hk
    cases hon : s.pecEnabled <;> cases last <;> simp [hon] at hk ⊢ <;> omega
  have hon : ({ s.readSoFar f g n k b with toI2c := b' } : Fx2).pecEnabled = s.pecEnabled := rfl
  rw [wp_ite, hon]
  rcases hlen with hlt | ⟨rfl, hon, rfl⟩
  · rw [← readSoFar_succ hlt hn] at hQ
    by_cases hon : s.pecEnabled = true
    · have hlast : ¬ (last && k + 1 == j.toNat) = true := by
        cases last
        · simp
        · simp [hj, readTurns, hon]
          omega
      rw [if_pos hon, wp_ite, if_neg hlast]
      simp only [wp_bind, wp_setEp0buf, wp_modify, wp_pure]
      rw [pecOver, if_pos hon] at hQ
      exact hQ
    · rw [if_neg hon, wp_bind, wp_setEp0buf, wp_pure]
      rw [pecOver, if_neg hon] at hQ
      exact hQ
  · have hlast : (true && k + 1 == j.toNat) = true := by
      simp [hj, readTurns, hon]
    rw [if_pos hon, wp_ite, if_pos hlast, wp_bind, wp_modify, wp_pure]
    rw [← readSoFar_pec] at hQ
    exact hQ

end

/-! ## One request -/

section

variable {T : Target} {f : Nat → Byte} {tr : List Event} {b : I2c} {g n m N : Nat} {s : Fx2}
  {bl l : Nat → Bool} {first last : Bool}

/-- A turn, whatever its flags. -/
theorem i2cBytein_flags (hT : Responsive T) (hb : Arrived f m (tr ++ turns f bl l m) b)
    (hf : l m = false → (T.recv (tr ++ turns f bl l m ++ askEvents f (bl m) m)).2 = f (m + 1))
    (hbl : l m = true → bl m = false) :
    ∃ b', i2cBytein T false false (bl m) (l m) b = (f m, b') ∧ b'.lastrdBit = false ∧
      b'.trace = tr ++ turns f bl l (m + 1) ∧ (l m = false → b'.i2dat = f (m + 1)) := by
  cases hl : l m with
  | false =>
    obtain ⟨b', hrun, hb'⟩ := i2cBytein_turn hT hb (bl m) (hf hl)
    refine ⟨b', hrun, hb'.bit, ?_, fun _ => hb'.dat⟩
    rw [hb'.trace, turns, hl, List.append_assoc]
  | true =>
    obtain ⟨b', hrun, hbit, htrace⟩ := i2cBytein_last hT hb
    refine ⟨b', by rw [hbl hl]; exact hrun, hbit, ?_, fun h => Bool.noConfusion h⟩
    rw [htrace, turns, hl, hbl hl, List.append_assoc]

/-- The bus from which the turns of a request go on: byte `g` has arrived, once the first
request of a read has started it. -/
structure Ready (T : Target) (first : Bool) (f : Nat → Byte) (g : Nat) (tr : List Event)
    (b b₁ : I2c) : Prop where
  begun : ∀ bl l, i2cBytein T first false bl l b = i2cBytein T false false bl l b₁
  arrived : Arrived f g tr b₁

variable (first last) in
/-- The rule of one request.  `I k` is what holds of the bus after `k` turns, and turn `k` has to
hand over byte `g + k`. -/
theorem read_run_of_turns (fuel : Nat) (I : Nat → I2c → Prop) (f : Nat → Byte) (g : Nat)
    (hfuel : readTurns s.pecEnabled last n < fuel) (hn : n ≤ 64)
    (hturn : ∀ k < readTurns s.pecEnabled last n, ∀ b, I k b →
      ∃ b', i2cBytein T (first && k == 0)
          ((first && k == 0) && readTurns s.pecEnabled last n == 1)
          (last && k + 2 == readTurns s.pecEnabled last n)
          (last && k + 1 == readTurns s.pecEnabled last n) b = (f (g + k), b') ∧ I (k + 1) b')
    (h0 : I 0 s.toI2c) :
    ∃ b' : I2c, Handler.read T fuel (BitVec.ofNat 16 n) ((readFlags first last).setWidth 16) s =
        .ok true { s.readSoFar f g n (readTurns s.pecEnabled last n) b' with
          ep0bcl := BitVec.ofNat 8 n } ∧
      I (readTurns s.pecEnabled last n) b' := by
  have hj65 := readTurns_le s.pecEnabled last n
  generalize hj : readTurns s.pecEnabled last n = j at *
  have hval : toByte (BitVec.ofNat 16 n) = BitVec.ofNat 8 n := by
    apply BitVec.eq_of_toNat_eq
    simp [toByte]
  have hflags : toByte ((readFlags first last).setWidth 16) = readFlags first last := by
    simp [toByte]
  have hlast := (hasFlag_readFlags first last).2
  have hbyte : (if s.pecEnabled = true ∧ last = true then BitVec.ofNat 8 n + 1
      else BitVec.ofNat 8 n) = BitVec.ofNat 8 j := by
    rw [← hj, readTurns]
    cases s.pecEnabled <;> cases last <;> simp [BitVec.ofNat_add]
  have htoNat : ∀ k ≤ j, (BitVec.ofNat 8 k).toNat = k := by
    intro k hk
    simp
    omega
  have hone : (BitVec.ofNat 8 j == 1) = (j == 1) := by
    rw [Bool.eq_iff_iff, beq_iff_eq, beq_iff_eq]
    refine ⟨fun h => ?_, fun h => by rw [h]; rfl⟩
    have := congrArg BitVec.toNat h
    rwa [htoNat j le_rfl] at this
  have h : wp (Handler.read T fuel (BitVec.ofNat 16 n) ((readFlags first last).setWidth 16))
      (fun ok s' => ok = true ∧ ∃ b' : I2c,
        s' = { s.readSoFar f g n j b' with ep0bcl := BitVec.ofNat 8 n } ∧ I j b')
      (fun _ _ => False) s := by
    simp only [Handler.read, wp_bind, wp_get, hval, hflags, hlast, hbyte]
    refine wp_whileLoop (fun k v s' => v = (BitVec.ofNat 8 k, readFlags (first && k == 0) last) ∧
      ∃ b, s' = s.readSoFar f g n k b ∧ I k b) j ?_ ?_ hfuel ?_
    · rintro k hk v s' ⟨rfl, b, rfl, hb⟩
      obtain ⟨b', hcall, hb'⟩ := hturn k hk b hb
      refine ⟨by rw [decide_eq_true_eq, BitVec.lt_def, htoNat k (by omega), htoNat j le_rfl]
                 exact hk, ?_⟩
      refine wp_readTurn hn (htoNat k (by omega)) (by rw [htoNat j le_rfl, hj])
        (by rw [htoNat j le_rfl]; exact hk) (by rw [hone, htoNat j le_rfl]; exact hcall) ?_
      exact ⟨by simp [BitVec.ofNat_add], b', rfl, hb'⟩
    · rintro v s' ⟨rfl, b, rfl, hb⟩
      exact ⟨by simp, rfl, b, rfl, hb⟩
    · exact ⟨by simp, s.toI2c, readSoFar_zero.symm, h0⟩
  obtain ⟨ok, s', hrun, rfl, b', rfl, hb'⟩ := exists_run_of_wp h
  exact ⟨b', hrun, hb'⟩

variable (first last) in
/-- A request of `n` bytes from byte `g` on makes the turns from `g` on. -/
theorem readBytes_run (fuel : Nat) (hT : Responsive T) (hfuel : 66 ≤ fuel) (h1 : 0 < n)
    (hn : n ≤ 64) (hready : ∃ b₁, Ready T first f g (tr ++ turns f bl l g) s.toI2c b₁)
    (hsingle : first = true → readTurns s.pecEnabled last n ≠ 1)
    (hbl : ∀ k < readTurns s.pecEnabled last n,
      bl (g + k) = (last && k + 2 == readTurns s.pecEnabled last n))
    (hl : ∀ k < readTurns s.pecEnabled last n,
      l (g + k) = (last && k + 1 == readTurns s.pecEnabled last n))
    (hf : Follows T tr f bl l N)
    (hN : g + readTurns s.pecEnabled last n ≤ N + last.toNat) :
    ∃ b' : I2c, Handler.read T fuel (BitVec.ofNat 16 n) ((readFlags first last).setWidth 16) s =
        .ok true { s.readSoFar f g n (readTurns s.pecEnabled last n) b' with
          ep0bcl := BitVec.ofNat 8 n } ∧
      b'.lastrdBit = false ∧ b'.trace = tr ++ turns f bl l (g + readTurns s.pecEnabled last n) ∧
      (last = false → b'.i2dat = f (g + readTurns s.pecEnabled last n)) := by
  have hpos : 0 < readTurns s.pecEnabled last n := Nat.add_pos_left h1 _
  have hle := readTurns_le s.pecEnabled last n
  have hrule := read_run_of_turns (T := T) (s := s) (n := n) first last fuel (fun k b =>
      (k < readTurns s.pecEnabled last n →
        ∃ b₁, Ready T (first && k == 0) f (g + k) (tr ++ turns f bl l (g + k)) b b₁) ∧
      (0 < k → b.lastrdBit = false ∧ b.trace = tr ++ turns f bl l (g + k) ∧
        (last = false → b.i2dat = f (g + k)))) f g (by omega) hn
  generalize readTurns s.pecEnabled last n = j at *
  refine (hrule ?_ ?_).imp fun b' h => ⟨h.1, h.2.2 hpos⟩
  · rintro k hk b ⟨hb, -⟩
    obtain ⟨b₁, hbegun, harr⟩ := hb hk
    have hfollow : l (g + k) = false →
        (T.recv (tr ++ turns f bl l (g + k) ++ askEvents f (bl (g + k)) (g + k))).2 =
          f (g + k + 1) := by
      intro h
      refine hf (g + k) ?_
      rw [hl k hk] at h
      cases last with
      | false =>
        simp at hN
        omega
      | true =>
        simp at hN h
        omega
    have hstop : l (g + k) = true → bl (g + k) = false := by
      intro h
      rw [hl k hk] at h
      rw [hbl k hk]
      simp at h ⊢
      omega
    have hone : ((first && k == 0) && j == 1) = false := by
      cases first with
      | false => rfl
      | true =>
        rw [Bool.and_eq_false_iff]
        exact .inr (by simpa using hsingle rfl)
    obtain ⟨b', hcall, hbit, htrace, hdat⟩ := i2cBytein_flags hT harr hfollow hstop
    refine ⟨b', by rw [hone, hbegun, ← hbl k hk, ← hl k hk]; exact hcall,
      fun hk' => ⟨b', fun _ _ => by simp, hdat ?_, hbit, htrace⟩,
      fun _ => ⟨hbit, htrace, fun hlast => hdat (by rw [hl k hk, hlast]; rfl)⟩⟩
    rw [hl k hk]
    have : ¬ k + 1 = j := by omega
    simp [this]
  · exact ⟨fun _ => by simpa using hready, fun h => absurd h (Nat.lt_irrefl 0)⟩

/-- A read of one byte without a PEC: LASTRD is set before the byte is started. -/
theorem readSingle_run (fuel : Nat) (hT : Responsive T) (hfuel : 2 ≤ fuel)
    (hoff : s.pecEnabled = false) :
    ∃ (b' : I2c) (x : Byte), Handler.read T fuel 1 ((readFlags true true).setWidth 16) s =
        .ok true { s.readSoFar (fun _ => x) 0 1 1 b' with ep0bcl := 1 } ∧
      b'.trace = s.trace ++ [.lastrd, .fetch s.i2dat, .recv x true, .stop, .fetch x] := by
  obtain ⟨b₁, hrecv, hdat, hbit, htrace⟩ := awaitByte_of_responsive hT s.toI2c.setLastrd.fetch
  have harr : Arrived (fun _ => b₁.i2dat) 0 b₁.trace b₁ := ⟨rfl, hbit, rfl⟩
  obtain ⟨b', hlast, -, htrace'⟩ := i2cBytein_last hT harr
  have hcall : i2cBytein T true true false true s.toI2c = (b₁.i2dat, b') := by
    rw [← hlast]
    simp only [i2cBytein, if_true, hrecv, Bool.false_eq_true, if_false]
  have hturns : readTurns s.pecEnabled true 1 = 1 := by
    rw [hoff]
    rfl
  have hrule := read_run_of_turns (T := T) (s := s) (n := 1) true true fuel
    (fun k b => b = if k = 0 then s.toI2c else b') (fun _ => b₁.i2dat) 0
  rw [hturns] at hrule
  obtain ⟨c, hrun, rfl⟩ := hrule hfuel (by omega) (by
    rintro k hk b rfl
    obtain rfl : k = 0 := by omega
    exact ⟨b', hcall, rfl⟩) rfl
  refine ⟨c, b₁.i2dat, hrun, ?_⟩
  rw [htrace', htrace, hdat]
  simp [I2c.setLastrd, I2c.fetch, I2c.log, turnEvents]

end

end Smbusb
