import Smbusb.Tools.R2j240

/-!
# The LGC checksum

`--fix-lgc-static-checksum` of `smbusb_r2j240flasher`: the last word of the data is set to minus the
sum of the words before it, so all of them add up to 0 (`fixLgcChecksum_sum`).

An `int` that a word is subtracted from is an unsigned number for that, so the sums are sums of
32-bit words.
-/

namespace Smbusb

open Logic

namespace R2j240

/-! ## Words and their bytes -/

/-- A word is its bytes, the low one first. -/
theorem word_of_bytes (w : UInt) : (w >>> 24).setWidth 8 ++ (w >>> 16).setWidth 8 ++
    (w >>> 8).setWidth 8 ++ w.setWidth 8 = w := by
  refine BitVec.eq_of_getLsbD_eq fun i hi => ?_
  simp only [BitVec.getLsbD_append, BitVec.getLsbD_setWidth, BitVec.getLsbD_ushiftRight]
  grind

/-- The word that was stored is read back. -/
theorem word_write_self (block : Mem Byte) (j : Nat) (w : UInt) :
    word (block.write (4 * j) (uint32Bytes w)) j = w := by
  have hcell : ∀ {k a}, (uint32Bytes w)[k]? = some a →
      block.write (4 * j) (uint32Bytes w) (4 * j + k) = a := fun h => Mem.write_of_mem block h
  have hfirst : block.write (4 * j) (uint32Bytes w) (4 * j) = w.setWidth 8 := hcell (k := 0) rfl
  rw [word, hcell (k := 3) rfl, hcell (k := 2) rfl, hcell (k := 1) rfl, hfirst]
  exact word_of_bytes w

/-- The other words stay. -/
theorem word_write_of_ne (block : Mem Byte) {i j : Nat} (h : i ≠ j) (w : UInt) :
    word (block.write (4 * j) (uint32Bytes w)) i = word block i := by
  have hlen : (uint32Bytes w).length = 4 := rfl
  have hcell : ∀ k < 4, block.write (4 * j) (uint32Bytes w) (4 * i + k) = block (4 * i + k) := by
    intro k hk
    rcases Nat.lt_or_gt_of_ne h with h | h
    · exact Mem.write_of_lt _ _ (by omega)
    · exact Mem.write_of_ge _ (by rw [hlen]; omega)
  have hfirst := hcell 0 (by omega)
  rw [Nat.add_zero] at hfirst
  rw [word, word, hfirst, hcell 1 (by omega), hcell 2 (by omega), hcell 3 (by omega)]

/-! ## Sums -/

/-- The sum of the first words of an array. -/
def wordSum (block : Mem Byte) (n : Nat) : UInt := ((List.range n).map (word block)).sum

theorem wordSum_succ (block : Mem Byte) (n : Nat) :
    wordSum block (n + 1) = wordSum block n + word block n := by
  simp [wordSum, List.range_succ]

theorem wordSum_congr {block block' : Mem Byte} {n : Nat}
    (h : ∀ i < n, word block i = word block' i) : wordSum block n = wordSum block' n := by
  refine congrArg List.sum (List.map_congr_left fun i hi => h i (List.mem_range.mp hi))

/-- What the loop computes. -/
theorem foldl_sub_word (block : Mem Byte) (n : Nat) :
    (List.range n).foldl (fun chk j => chk - word block j) (0 : UInt) = -wordSum block n := by
  induction n with
  | zero => simp [wordSum]
  | succ n ih =>
      rw [List.range_succ, List.foldl_append, ih, wordSum_succ, List.foldl_cons, List.foldl_nil]
      ring

/-! ## The step -/

/-- The step, for `n + 1` words. -/
theorem fixLgcChecksum_eq {opSize : Int} {n : Nat} (h : opSize / 4 = n + 1) (block : Mem Byte) :
    fixLgcChecksum opSize block = block.write (4 * n) (uint32Bytes (-wordSum block n)) := by
  have hlast : (opSize.tdiv 4 - 1).toNat = n := by
    have hpos : 0 ≤ opSize := by omega
    rw [Int.tdiv_eq_ediv_of_nonneg hpos]
    omega
  rw [fixLgcChecksum, hlast, foldl_sub_word]

/-- The words before the last one stay. -/
theorem wordSum_write (block : Mem Byte) (n : Nat) (w : UInt) :
    wordSum (block.write (4 * n) (uint32Bytes w)) n = wordSum block n :=
  wordSum_congr fun _ hi => word_write_of_ne block (Nat.ne_of_lt hi) w

/-- Behind the step the words add up to 0, only the last one has changed, and a second step changes
nothing. -/
theorem fixLgcChecksum_sum {opSize : Int} (h : 4 ≤ opSize) (block : Mem Byte) :
    wordSum (fixLgcChecksum opSize block) (opSize / 4).toNat = 0 ∧
      (∀ i, i < 4 * ((opSize / 4).toNat - 1) ∨ 4 * (opSize / 4).toNat ≤ i →
        fixLgcChecksum opSize block i = block i) ∧
      fixLgcChecksum opSize (fixLgcChecksum opSize block) = fixLgcChecksum opSize block := by
  obtain ⟨n, hn⟩ : ∃ n : Nat, opSize / 4 = n + 1 := ⟨(opSize / 4 - 1).toNat, by omega⟩
  have hcount : (opSize / 4).toNat = n + 1 := by omega
  have hstep := fixLgcChecksum_eq hn block
  have hlen : ∀ w, (uint32Bytes w).length = 4 := fun _ => rfl
  rw [hcount, hstep]
  refine ⟨?_, fun i hi => ?_, ?_⟩
  · rw [wordSum_succ, wordSum_write, word_write_self]
    ring
  · rcases hi with hi | hi
    · exact Mem.write_of_lt _ _ (by omega)
    · exact Mem.write_of_ge _ (by rw [hlen]; omega)
  · rw [fixLgcChecksum_eq hn, wordSum_write]
    funext i
    by_cases hlt : i < 4 * n
    · rw [Mem.write_of_lt _ _ hlt]
    · by_cases hge : 4 * n + 4 ≤ i
      · rw [Mem.write_of_ge _ (by rw [hlen]; omega)]
      · obtain ⟨k, rfl⟩ := Nat.exists_eq_add_of_le (Nat.le_of_not_lt hlt)
        have hk : k < (uint32Bytes (-wordSum block n)).length := by rw [hlen]; omega
        have hcell := List.getElem?_eq_getElem hk
        rw [Mem.write_of_mem _ hcell, Mem.write_of_mem _ hcell]

/-- Two words and two bytes. -/
theorem fixLgcChecksum_sum_ten :
    wordSum (fixLgcChecksum 10 fun i => BitVec.ofNat 8 i) 2 = 0 ∧
      fixLgcChecksum 10 (fun i => BitVec.ofNat 8 i) 3 = 3 :=
  have h := fixLgcChecksum_sum (show (4 : Int) ≤ 10 by decide) fun i => BitVec.ofNat 8 i
  ⟨h.1, h.2.1 3 (.inl (by decide))⟩

end R2j240

end Smbusb
