import Smbusb.Tools.Bursts
import Smbusb.Tools.RenesasRun

/-!
# Reading and writing the flash of an M37512

What `readFlash` and `writeFlash` send, return and store, for any chip (`wp_readFlash`,
`wp_writeFlash`).  The calls are those of the bursts `readBurst` and `writeBurst`.
-/

namespace Smbusb

open Logic Prog Tool

namespace M37512

/-! ## The bursts -/

/-- The calls of `readFlash`. -/
def readBurst (address : Int) : Burst where
  test i := [setReadCall address i]
  rest _ := [.readBlock cmdReadBlock]

/-- The calls of `writeFlash`. -/
def writeBurst (address : Int) (buf : Mem Byte) : Burst where
  test i := [.readByte cmdReadClearStatusRegister,
    writeCall address i (buf.read (i * chunkLen) chunkLen)]
  rest _ := []

/-- The chunks of a length. -/
def chunkCount (len : Int) : Nat := (len.tdiv chunkLen).toNat

theorem chunkCount_natCast (n : Nat) : chunkCount n = n / chunkLen := by
  rw [chunkCount, Int.tdiv_eq_ediv_of_nonneg (Int.natCast_nonneg n)]
  exact Int.toNat_natCast _

theorem tmod_chunkLen {n : Nat} (h : chunkLen ∣ n) : (n : Int).tmod chunkLen = 0 :=
  Int.tmod_eq_zero_of_dvd (Int.natCast_dvd_natCast.mpr h)

section

variable (chip : Chip) (arrays : Arrays) (before : List Call) (address : Int)

/-- The answer to the read of the chunk `i`, after the calls `before`. -/
def answer (i : Nat) : BlockAnswer := chip.block (before ++ (readBurst address).calls (i + 1))

/-- The array `chunk` when `i` chunks were read. -/
def chunkAfter : Nat → Mem Byte
  | 0 => arrays.scratch before
  | i + 1 => (chunkAfter i).write 0 (answer chip before address i).data

/-- What is copied out of it for the first `n` chunks. -/
def chunkData (n : Nat) : List Byte :=
  (List.range n).flatMap fun i => (chunkAfter chip arrays before address (i + 1)).read 0 chunkLen

theorem chunkData_succ (n : Nat) : chunkData chip arrays before address (n + 1) =
    chunkData chip arrays before address n ++
      (chunkAfter chip arrays before address (n + 1)).read 0 chunkLen := by
  simp [chunkData, List.range_succ]

@[simp] theorem length_chunkData (n : Nat) :
    (chunkData chip arrays before address n).length = n * chunkLen := by
  induction n with
  | zero => simp [chunkData]
  | succ n ih => rw [chunkData_succ, List.length_append, ih, Mem.length_read, Nat.succ_mul]

/-! ## The loops -/

variable {chip arrays before address} {Q : Int × Mem Byte → ToolState → Prop}
  {E : Int → ToolState → Prop} {s : ToolState}

/-- From the chunk `i` on, with `i` chunks in `buf`. -/
theorem wp_readChunks {Q : Bool × Mem Byte → ToolState → Prop} {turns i n : Nat} {buf : Mem Byte}
    (hn : i + turns = n) (hs : s.sent = before ++ (readBurst address).calls i)
    (hbefore : (readBurst address).Passes chip before i)
    (hpass : (readBurst address).Passes chip before n →
      Q (true, buf.write 0 (chunkData chip arrays before address n))
        { s with sent := before ++ (readBurst address).calls n })
    (hfail : ∀ k < n, (readBurst address).Fails chip before k →
      (readBurst address).Passes chip before k →
      Q (false, buf.write 0 (chunkData chip arrays before address k))
        { s with sent := before ++ (readBurst address).calls k ++ (readBurst address).test k }) :
    wp (readChunks chip address turns i (chunkAfter chip arrays before address i)
      (buf.write 0 (chunkData chip arrays before address i))) Q E s := by
  induction turns generalizing i s with
  | zero =>
      obtain rfl : i = n := by omega
      have hend := hpass hbefore
      rw [← hs] at hend
      exact hend
  | succ turns ih =>
      simp only [readChunks, wp_bind, wp_call, wp_ite, wp_pure, Tool.wp_readBlock]
      split
      · next hneg =>
        have hfails : (readBurst address).Fails chip before i := by
          rw [hs] at hneg
          exact hneg
        have hend := hfail i (by omega) hfails hbefore
        rw [← hs] at hend
        exact hend
      · next hnonneg =>
        have hgoes : ¬ (readBurst address).Fails chip before i := by
          rw [hs] at hnonneg
          exact hnonneg
        have hsent : s.sent ++ [setReadCall address i] ++ [.readBlock cmdReadBlock] =
            before ++ (readBurst address).calls (i + 1) := by
          rw [hs, Burst.calls_succ]
          simp only [readBurst, List.append_assoc]
        have hcopied : ∀ l : List Byte,
            (buf.write 0 (chunkData chip arrays before address i)).write (i * chunkLen) l =
              buf.write 0 (chunkData chip arrays before address i ++ l) := by
          intro l
          rw [← Mem.write_append, Nat.zero_add, length_chunkData]
        have hchunk : (chunkAfter chip arrays before address i).write 0
            (chip.block (before ++ (readBurst address).calls (i + 1))).data =
              chunkAfter chip arrays before address (i + 1) := rfl
        rw [hsent, hchunk, hcopied, ← chunkData_succ]
        exact ih (by omega) rfl (hbefore.succ hgoes) hpass hfail

/-- `readFlash` of whole chunks. -/
theorem wp_readFlash {len : Int} {buf : Mem Byte} (hlen : len.tmod chunkLen = 0)
    (hpass : (readBurst address).Passes chip s.sent (chunkCount len) →
      Q (len, buf.write 0 (chunkData chip arrays s.sent address (chunkCount len)))
        { s with sent := s.sent ++ (readBurst address).sent chip s.sent (chunkCount len) })
    (hfail : ¬ (readBurst address).Passes chip s.sent (chunkCount len) →
      Q (-1, buf.write 0 (chunkData chip arrays s.sent address
          ((readBurst address).passed chip s.sent (chunkCount len))))
        { s with sent := s.sent ++ (readBurst address).sent chip s.sent (chunkCount len) }) :
    wp (readFlash chip arrays address len buf) Q E s := by
  rw [readFlash, if_neg (not_not_intro hlen)]
  simp only [wp_bind, wp_get]
  have hstart : buf.write 0 (chunkData chip arrays s.sent address 0) = buf := by
    rw [chunkData, List.range_zero, List.flatMap_nil, Mem.write_nil]
  have hloop : wp (readChunks chip address (chunkCount len) 0
      (chunkAfter chip arrays s.sent address 0)
      (buf.write 0 (chunkData chip arrays s.sent address 0)))
      (fun r s' => Q (if r.1 then len else -1, r.2) s') E s := by
    refine wp_readChunks (Nat.zero_add _) (List.append_nil _).symm
      (fun i hi => absurd hi (Nat.not_lt_zero i)) ?_ ?_
    · intro hpasses
      have hend := hpass hpasses
      rw [Burst.sent_of_passes hpasses] at hend
      exact hend
    · intro k hk hfails hbefore
      have hend := hfail fun h => h k hk hfails
      rw [Burst.sent_of_fails hk hfails hbefore, Burst.passed_eq hk hfails hbefore,
        ← List.append_assoc] at hend
      exact hend
  rw [hstart] at hloop
  exact hloop

/-- From the chunk `i` on. -/
theorem wp_writeChunks {Q : Option Int → ToolState → Prop} {turns i n : Nat} {buf : Mem Byte}
    (hn : i + turns = n) (hs : s.sent = before ++ (writeBurst address buf).calls i)
    (hbefore : (writeBurst address buf).Passes chip before i)
    (hpass : (writeBurst address buf).Passes chip before n →
      Q none { s with sent := before ++ (writeBurst address buf).calls n })
    (hfail : ∀ k < n, (writeBurst address buf).Fails chip before k →
      (writeBurst address buf).Passes chip before k → ∀ status, status < 0 → Q (some status)
        { s with sent := before ++ (writeBurst address buf).calls k ++
            (writeBurst address buf).test k }) :
    wp (writeChunks chip address buf turns i) Q E s := by
  induction turns generalizing i s with
  | zero =>
      obtain rfl : i = n := by omega
      have hend := hpass hbefore
      rw [← hs] at hend
      exact hend
  | succ turns ih =>
      simp only [writeChunks, readClearStatusRegister, wp_bind, wp_call, wp_ite, wp_pure]
      have htest : s.sent ++ [.readByte cmdReadClearStatusRegister] ++
          [writeCall address i (buf.read (i * chunkLen) chunkLen)] =
          before ++ (writeBurst address buf).calls i ++ (writeBurst address buf).test i := by
        rw [hs]
        simp only [writeBurst, List.append_assoc, List.cons_append, List.nil_append]
      rw [htest]
      split
      · next hneg => exact hfail i (by omega) hneg hbefore _ hneg
      · next hgoes =>
        refine ih (by omega) ?_ (hbefore.succ hgoes) hpass hfail
        rw [Burst.calls_succ]
        simp only [writeBurst, List.append_nil, List.append_assoc]

/-- `writeFlash` of whole chunks. -/
theorem wp_writeFlash {Q : Int → ToolState → Prop} {len : Int} {buf : Mem Byte}
    (hlen : len.tmod chunkLen = 0)
    (hpass : (writeBurst address buf).Passes chip s.sent (chunkCount len) → Q len
      { s with sent := s.sent ++ (writeBurst address buf).sent chip s.sent (chunkCount len) })
    (hfail : ¬ (writeBurst address buf).Passes chip s.sent (chunkCount len) →
      ∀ status, status < 0 → Q status
        { s with sent := s.sent ++ (writeBurst address buf).sent chip s.sent (chunkCount len) }) :
    wp (writeFlash chip address len buf) Q E s := by
  have hcount : (len.tdiv chunkLen).toNat = chunkCount len := rfl
  rw [writeFlash, if_neg (not_not_intro hlen), wp_bind, hcount]
  refine wp_writeChunks (Nat.zero_add _) (List.append_nil _).symm
    (fun i hi => absurd hi (Nat.not_lt_zero i)) ?_ ?_
  · intro hpasses
    have hend := hpass hpasses
    rw [Burst.sent_of_passes hpasses] at hend
    exact hend
  · intro k hk hfails hbefore status hneg
    have hend := hfail (fun h => h k hk hfails) status hneg
    rw [Burst.sent_of_fails hk hfails hbefore, ← List.append_assoc] at hend
    exact hend

/-! ## Lengths that are not a multiple of the chunk -/

theorem readFlash_unaligned {len : Int} (hlen : len.tmod chunkLen ≠ 0) (buf : Mem Byte)
    (s : ToolState) : readFlash chip arrays address len buf s = .ok (-99, buf) s := by
  rw [readFlash, if_pos hlen]
  rfl

theorem writeFlash_unaligned {len : Int} (hlen : len.tmod chunkLen ≠ 0) (buf : Mem Byte)
    (s : ToolState) : writeFlash chip address len buf s = .ok (-99) s := by
  rw [writeFlash, if_pos hlen]
  rfl

end

end M37512

end Smbusb
