import Smbusb.Logic.Pieces
import Smbusb.Tools.Bursts
import Smbusb.Tools.RenesasRun

/-!
# Reading and writing the RAM of an R2J240

What `readRam` and `writeRam` send, return and store, for any chip (`wp_readRam`, `wp_writeRam`).
The calls are those of the bursts `readBurst` and `writeBurst`; the pieces are of 64 and of 26
bytes.
-/

namespace Smbusb

open Logic Prog Tool

namespace R2j240

/-! ## The bursts -/

/-- The most bytes that are read at once. -/
def readLen : Nat := 64

/-- The most bytes that are written at once. -/
def writeLen : Nat := 26

theorem readLen_pos : 0 < readLen := by decide

theorem writeLen_pos : 0 < writeLen := by decide

/-- The address of a piece. -/
def pieceAddress (c : Nat) (address size : UInt) (i : Nat) : UInt :=
  address + BitVec.ofNat 32 (covered c size.toNat i)

theorem pieceAddress_succ (c : Nat) (address size : UInt) (i : Nat) :
    pieceAddress c address size (i + 1) =
      pieceAddress c address size i + BitVec.ofNat 32 (pieceLen c size.toNat i) := by
  rw [pieceAddress, pieceAddress, covered_succ, BitVec.ofNat_add, BitVec.add_assoc]

/-- The calls of `readRam`. -/
def readBurst (address size : UInt) : Burst where
  test i := [readRamCall (pieceAddress readLen address size i) (pieceLen readLen size.toNat i)]
  rest _ := []

/-- The calls of `writeRam`. -/
def writeBurst (address size : UInt) (buf : Mem Byte) : Burst where
  test i := [writeRamCall (pieceAddress writeLen address size i)
    (buf.read (covered writeLen size.toNat i) (pieceLen writeLen size.toNat i))]
  rest _ := []

theorem readBurst_succ (address size : UInt) (i : Nat) : (readBurst address size).calls (i + 1) =
    (readBurst address size).calls i ++
      [readRamCall (pieceAddress readLen address size i) (pieceLen readLen size.toNat i)] := by
  rw [Burst.calls_succ]
  exact List.append_nil _

theorem writeBurst_succ (address size : UInt) (buf : Mem Byte) (i : Nat) :
    (writeBurst address size buf).calls (i + 1) = (writeBurst address size buf).calls i ++
      [writeRamCall (pieceAddress writeLen address size i)
        (buf.read (covered writeLen size.toNat i) (pieceLen writeLen size.toNat i))] := by
  rw [Burst.calls_succ]
  exact List.append_nil _

section

variable (chip : Chip) (before : List Call) (address size : UInt)

/-- What is stored for the first `n` pieces. -/
def readData (n : Nat) : List Byte :=
  (List.range n).flatMap fun i => receive chip (before ++ (readBurst address size).calls (i + 1))
    (pieceLen readLen size.toNat i)

theorem readData_succ (n : Nat) : readData chip before address size (n + 1) =
    readData chip before address size n ++
      receive chip (before ++ (readBurst address size).calls (n + 1))
        (pieceLen readLen size.toNat n) := by
  simp [readData, List.range_succ]

@[simp] theorem length_readData (n : Nat) :
    (readData chip before address size n).length = covered readLen size.toNat n := by
  induction n with
  | zero => simp [readData]
  | succ n ih =>
      rw [readData_succ, List.length_append, ih, covered_succ, receive, List.length_map,
        List.length_range]

/-! ## The loops -/

variable {chip before address size} {E : Int → ToolState → Prop} {s : ToolState}

/-- The number of pieces that are read. -/
def readCount (size : UInt) : Nat := pieceCount readLen size.toNat

/-- The number of pieces that are written. -/
def writeCount (size : UInt) : Nat := pieceCount writeLen size.toNat

/-- From the piece `i` on, with `i` pieces in `buf`. -/
theorem wp_readRamLoop {Q : Int × Mem Byte → ToolState → Prop} {turns i fuel : Nat} {sts : Int}
    {buf : Mem Byte} (hi : i + turns = readCount size)
    (hfuel : size.toNat - covered readLen size.toNat i ≤ fuel) (hsts : 0 ≤ sts)
    (hs : s.sent = before ++ (readBurst address size).calls i)
    (hbefore : (readBurst address size).Passes chip before i)
    (hpass : (readBurst address size).Passes chip before (readCount size) → ∀ sts, 0 ≤ sts →
      Q (sts, buf.write 0 (readData chip before address size (readCount size)))
        { s with sent := before ++ (readBurst address size).calls (readCount size) })
    (hfail : ∀ k < readCount size, (readBurst address size).Fails chip before k →
      (readBurst address size).Passes chip before k → ∀ sts buf', sts < 0 → Q (sts, buf')
        { s with sent := before ++ (readBurst address size).calls k ++
            (readBurst address size).test k }) :
    wp (readRamLoop chip fuel (size.toNat - covered readLen size.toNat i)
      (covered readLen size.toNat i) (pieceAddress readLen address size i) sts
      (buf.write 0 (readData chip before address size i))) Q E s := by
  induction turns generalizing i s fuel sts with
  | zero =>
      obtain rfl : i = readCount size := by omega
      have hend := hpass hbefore sts hsts
      rw [← hs] at hend
      have hdone : size.toNat - covered readLen size.toNat (readCount size) = 0 := by
        rw [readCount, covered_pieceCount readLen_pos, Nat.sub_self]
      rw [hdone]
      cases fuel with
      | zero => exact hend
      | succ fuel =>
          rw [readRamLoop, if_pos rfl]
          exact hend
  | succ turns ih =>
      have hpos : 0 < pieceLen readLen size.toNat i :=
        pieceLen_pos readLen_pos (show i < readCount size by omega)
      have hinside := piece_inside readLen size.toNat i
      obtain ⟨fuel, rfl⟩ : ∃ f, fuel = f + 1 := ⟨fuel - 1, by omega⟩
      have hcur : min (size.toNat - covered readLen size.toNat i) 64 =
          pieceLen readLen size.toNat i := rfl
      have hremain : size.toNat - covered readLen size.toNat i - pieceLen readLen size.toNat i =
          size.toNat - covered readLen size.toNat (i + 1) := by
        rw [covered_succ, Nat.sub_add_eq]
      simp only [readRamLoop, if_neg (show size.toNat - covered readLen size.toNat i ≠ 0 by omega),
        wp_bind, wp_call, wp_get, wp_ite, wp_pure, hcur]
      split
      · next hneg =>
        rw [hs] at hneg ⊢
        exact hfail i (by omega) hneg hbefore _ _ hneg
      · next hnonneg =>
        have hgoes : ¬ (readBurst address size).Fails chip before i := by
          rw [hs] at hnonneg
          exact hnonneg
        have hsent : s.sent ++ [readRamCall (pieceAddress readLen address size i)
            (pieceLen readLen size.toNat i)] =
              before ++ (readBurst address size).calls (i + 1) := by
          rw [hs, readBurst_succ, List.append_assoc]
        have hcopied : ∀ l : List Byte,
            (buf.write 0 (readData chip before address size i)).write
              (covered readLen size.toNat i) l =
              buf.write 0 (readData chip before address size i ++ l) := by
          intro l
          rw [← Mem.write_append, Nat.zero_add, length_readData]
        rw [hsent] at hnonneg ⊢
        rw [hremain, ← covered_succ, ← pieceAddress_succ, hcopied, ← readData_succ]
        refine ih (by omega) (by rw [covered_succ]; omega) (Int.not_lt.mp hnonneg) rfl
          (hbefore.succ hgoes) hpass hfail

/-- `readRam` returns the size, as an `int`, or -1. -/
theorem wp_readRam {Q : Int × Mem Byte → ToolState → Prop} {buf : Mem Byte}
    (hpass : (readBurst address size).Passes chip s.sent (readCount size) →
      Q (size.toInt, buf.write 0 (readData chip s.sent address size (readCount size)))
        { s with sent := s.sent ++ (readBurst address size).sent chip s.sent (readCount size) })
    (hfail : ¬ (readBurst address size).Passes chip s.sent (readCount size) → ∀ buf', Q (-1, buf')
        { s with sent := s.sent ++ (readBurst address size).sent chip s.sent (readCount size) }) :
    wp (readRam chip address size buf) Q E s := by
  rw [readRam, wp_bind]
  have hstart : pieceAddress readLen address size 0 = address := by
    rw [pieceAddress, covered_zero]
    exact BitVec.add_zero _
  have hloop : wp (readRamLoop chip size.toNat (size.toNat - covered readLen size.toNat 0)
      (covered readLen size.toNat 0) (pieceAddress readLen address size 0) 0
      (buf.write 0 (readData chip s.sent address size 0)))
      (fun r s' => Q (if r.1 < 0 then -1 else size.toInt, r.2) s') E s := by
    refine wp_readRamLoop (Nat.zero_add _) (Nat.sub_le ..) (Int.le_refl 0)
      (List.append_nil _).symm (fun i hi => absurd hi (Nat.not_lt_zero i)) ?_ ?_
    · intro hpasses sts hsts
      have hend := hpass hpasses
      rw [Burst.sent_of_passes hpasses] at hend
      rw [if_neg (Int.not_lt.mpr hsts)]
      exact hend
    · intro k hk hfails hbefore sts buf' hneg
      have hend := hfail (fun h => h k hk hfails) buf'
      rw [Burst.sent_of_fails hk hfails hbefore, ← List.append_assoc] at hend
      rw [if_pos hneg]
      exact hend
  rw [covered_zero, Nat.sub_zero, hstart] at hloop
  exact hloop

/-- From the piece `i` on. -/
theorem wp_writeRamLoop {Q : Int → ToolState → Prop} {turns i fuel : Nat} {sts : Int}
    {buf : Mem Byte} (hi : i + turns = writeCount size)
    (hfuel : size.toNat - covered writeLen size.toNat i ≤ fuel) (hsts : 0 ≤ sts)
    (hs : s.sent = before ++ (writeBurst address size buf).calls i)
    (hbefore : (writeBurst address size buf).Passes chip before i)
    (hpass : (writeBurst address size buf).Passes chip before (writeCount size) → ∀ sts, 0 ≤ sts →
      Q sts { s with sent := before ++ (writeBurst address size buf).calls (writeCount size) })
    (hfail : ∀ k < writeCount size, (writeBurst address size buf).Fails chip before k →
      (writeBurst address size buf).Passes chip before k → ∀ sts, sts < 0 → Q sts
        { s with sent := before ++ (writeBurst address size buf).calls k ++
            (writeBurst address size buf).test k }) :
    wp (writeRamLoop chip fuel (size.toNat - covered writeLen size.toNat i)
      (covered writeLen size.toNat i) (pieceAddress writeLen address size i) sts buf) Q E s := by
  induction turns generalizing i s fuel sts with
  | zero =>
      obtain rfl : i = writeCount size := by omega
      have hend := hpass hbefore sts hsts
      rw [← hs] at hend
      have hdone : size.toNat - covered writeLen size.toNat (writeCount size) = 0 := by
        rw [writeCount, covered_pieceCount writeLen_pos, Nat.sub_self]
      rw [hdone]
      cases fuel with
      | zero => exact hend
      | succ fuel =>
          rw [writeRamLoop, if_pos rfl]
          exact hend
  | succ turns ih =>
      have hpos : 0 < pieceLen writeLen size.toNat i :=
        pieceLen_pos writeLen_pos (show i < writeCount size by omega)
      have hinside := piece_inside writeLen size.toNat i
      obtain ⟨fuel, rfl⟩ : ∃ f, fuel = f + 1 := ⟨fuel - 1, by omega⟩
      have hcur : min (size.toNat - covered writeLen size.toNat i) 26 =
          pieceLen writeLen size.toNat i := rfl
      have hremain : size.toNat - covered writeLen size.toNat i - pieceLen writeLen size.toNat i =
          size.toNat - covered writeLen size.toNat (i + 1) := by
        rw [covered_succ, Nat.sub_add_eq]
      simp only [writeRamLoop,
        if_neg (show size.toNat - covered writeLen size.toNat i ≠ 0 by omega),
        wp_bind, wp_call, wp_ite, wp_pure, hcur]
      split
      · next hneg =>
        rw [hs] at hneg ⊢
        exact hfail i (by omega) hneg hbefore _ hneg
      · next hnonneg =>
        have hgoes : ¬ (writeBurst address size buf).Fails chip before i := by
          rw [hs] at hnonneg
          exact hnonneg
        have hsent : s.sent ++ [writeRamCall (pieceAddress writeLen address size i)
            (buf.read (covered writeLen size.toNat i) (pieceLen writeLen size.toNat i))] =
              before ++ (writeBurst address size buf).calls (i + 1) := by
          rw [hs, writeBurst_succ, List.append_assoc]
        rw [hsent] at hnonneg ⊢
        rw [hremain, ← covered_succ, ← pieceAddress_succ]
        refine ih (by omega) (by rw [covered_succ]; omega) (Int.not_lt.mp hnonneg) rfl
          (hbefore.succ hgoes) hpass hfail

/-- `writeRam` returns the size, as an `int`, or -1. -/
theorem wp_writeRam {Q : Int → ToolState → Prop} {buf : Mem Byte}
    (hpass : (writeBurst address size buf).Passes chip s.sent (writeCount size) →
      Q size.toInt { s with sent := s.sent ++
        (writeBurst address size buf).sent chip s.sent (writeCount size) })
    (hfail : ¬ (writeBurst address size buf).Passes chip s.sent (writeCount size) →
      Q (-1) { s with sent := s.sent ++
        (writeBurst address size buf).sent chip s.sent (writeCount size) }) :
    wp (writeRam chip address size buf) Q E s := by
  rw [writeRam, wp_bind]
  have hstart : pieceAddress writeLen address size 0 = address := by
    rw [pieceAddress, covered_zero]
    exact BitVec.add_zero _
  have hloop : wp (writeRamLoop chip size.toNat (size.toNat - covered writeLen size.toNat 0)
      (covered writeLen size.toNat 0) (pieceAddress writeLen address size 0) 0 buf)
      (fun sts s' => Q (if sts < 0 then -1 else size.toInt) s') E s := by
    refine wp_writeRamLoop (Nat.zero_add _) (Nat.sub_le ..) (Int.le_refl 0)
      (List.append_nil _).symm (fun i hi => absurd hi (Nat.not_lt_zero i)) ?_ ?_
    · intro hpasses sts hsts
      have hend := hpass hpasses
      rw [Burst.sent_of_passes hpasses] at hend
      rw [if_neg (Int.not_lt.mpr hsts)]
      exact hend
    · intro k hk hfails hbefore sts hneg
      have hend := hfail fun h => h k hk hfails
      rw [Burst.sent_of_fails hk hfails hbefore, ← List.append_assoc] at hend
      rw [if_pos hneg]
      exact hend
  rw [covered_zero, Nat.sub_zero, hstart] at hloop
  exact hloop

end

end R2j240

end Smbusb
