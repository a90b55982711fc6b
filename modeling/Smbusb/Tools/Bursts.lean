import Smbusb.Tools.Flasher

/-!
# Bursts of calls

The flashers read and write a range in chunks.  For each chunk there are some calls, after which a
status is looked at, and then the rest of the calls; a negative status ends it all.  A `Burst` says
which calls these are, so that what a chip makes of a loop is what it makes of its burst: the loops
of the tools are proved to send `Burst.sent`.
-/

namespace Smbusb

/-- The calls for each chunk. -/
structure Burst where
  /-- The calls after which the status is looked at. -/
  test : Nat → List Call
  /-- The calls behind them. -/
  rest : Nat → List Call

namespace Burst

variable (b : Burst)

/-- The calls for the first `k` chunks. -/
def calls (k : Nat) : List Call := (List.range k).flatMap fun i => b.test i ++ b.rest i

@[simp] theorem calls_zero : b.calls 0 = [] := rfl

theorem calls_succ (k : Nat) : b.calls (k + 1) = b.calls k ++ b.test k ++ b.rest k := by
  simp [calls, List.range_succ]

theorem mem_calls {k : Nat} {c : Call} :
    c ∈ b.calls k ↔ ∃ i < k, c ∈ b.test i ∨ c ∈ b.rest i := by
  simp [calls]

theorem calls_prefix {j k : Nat} (h : j ≤ k) : b.calls j <+: b.calls k := by
  induction k with
  | zero => exact Nat.le_zero.mp h ▸ List.prefix_rfl
  | succ k ih =>
      rcases Nat.le_succ_iff.mp h with hle | rfl
      · rw [calls_succ, List.append_assoc]
        exact (ih hle).trans (List.prefix_append _ _)
      · exact List.prefix_rfl

section

variable (chip : Chip) (before : List Call)

/-- The status of the chunk `k` is negative. -/
def Fails (k : Nat) : Prop := chip.status (before ++ b.calls k ++ b.test k) < 0

instance (k : Nat) : Decidable (b.Fails chip before k) := inferInstanceAs (Decidable (_ < _))

/-- The number of chunks, of `n`, before the first that fails. -/
def passed : Nat → Nat
  | 0 => 0
  | n + 1 => if passed n = n ∧ ¬ b.Fails chip before n then n + 1 else passed n

/-- No chunk fails. -/
def Passes (n : Nat) : Prop := ∀ i < n, ¬ b.Fails chip before i

instance (n : Nat) : Decidable (b.Passes chip before n) :=
  inferInstanceAs (Decidable (∀ i < n, ¬ b.Fails chip before i))

/-- The calls that are made for `n` chunks. -/
def sent (n : Nat) : List Call :=
  if b.Passes chip before n then b.calls n
  else b.calls (b.passed chip before n) ++ b.test (b.passed chip before n)

variable {b chip before}

theorem Passes.mono {j k : Nat} (h : b.Passes chip before k) (hle : j ≤ k) :
    b.Passes chip before j := fun i hi => h i (Nat.lt_of_lt_of_le hi hle)

theorem Passes.succ {k : Nat} (h : b.Passes chip before k) (hgoes : ¬ b.Fails chip before k) :
    b.Passes chip before (k + 1) := by
  intro i hi
  rcases Nat.lt_succ_iff_lt_or_eq.mp hi with hlt | rfl
  · exact h i hlt
  · exact hgoes

theorem passed_of_passes {n : Nat} (h : b.Passes chip before n) : b.passed chip before n = n := by
  induction n with
  | zero => rfl
  | succ n ih =>
      exact if_pos ⟨ih (h.mono (Nat.le_succ n)), h n (Nat.lt_succ_self n)⟩

/-- The chunk at which it ends is the first that fails. -/
theorem passed_eq {k n : Nat} (hk : k < n) (hfails : b.Fails chip before k)
    (hpass : b.Passes chip before k) : b.passed chip before n = k := by
  induction n with
  | zero => exact absurd hk (Nat.not_lt_zero k)
  | succ n ih =>
      rw [passed]
      rcases Nat.lt_succ_iff_lt_or_eq.mp hk with hlt | rfl
      · rw [ih hlt, if_neg]
        rintro ⟨heq, -⟩
        omega
      · rw [if_neg fun h => h.2 hfails]
        exact passed_of_passes hpass

theorem sent_of_passes {n : Nat} (h : b.Passes chip before n) : b.sent chip before n = b.calls n :=
  if_pos h

theorem sent_of_fails {k n : Nat} (hk : k < n) (hfails : b.Fails chip before k)
    (hpass : b.Passes chip before k) : b.sent chip before n = b.calls k ++ b.test k := by
  rw [sent, if_neg fun h => h k hk hfails, passed_eq hk hfails hpass]

/-- All chunks pass, or there is a first that fails. -/
theorem passes_or_fails (b : Burst) (chip : Chip) (before : List Call) (n : Nat) :
    b.Passes chip before n ∨
      ∃ k < n, b.Fails chip before k ∧ b.Passes chip before k := by
  induction n with
  | zero => exact .inl fun i hi => absurd hi (Nat.not_lt_zero i)
  | succ n ih =>
      rcases ih with hpass | ⟨k, hk, hfirst⟩
      · by_cases hfails : b.Fails chip before n
        · exact .inr ⟨n, Nat.lt_succ_self n, hfails, hpass⟩
        · exact .inl (hpass.succ hfails)
      · exact .inr ⟨k, Nat.lt_succ_of_lt hk, hfirst⟩

/-- The calls behind a status are made if and only if neither it nor one before it was negative. -/
theorem calls_prefix_sent_iff (hrest : ∀ k, b.rest k ≠ []) {i n : Nat} (hi : i < n) :
    b.calls (i + 1) <+: b.sent chip before n ↔ b.Passes chip before (i + 1) := by
  rcases passes_or_fails b chip before n with hpass | ⟨k, hk, hfails, hpass⟩
  · rw [sent_of_passes hpass]
    exact iff_of_true (b.calls_prefix hi) (hpass.mono hi)
  · rw [sent_of_fails hk hfails hpass]
    by_cases hik : i < k
    · exact iff_of_true ((b.calls_prefix hik).trans (List.prefix_append _ _)) (hpass.mono hik)
    · refine iff_of_false (fun hprefix => ?_) fun h => h k (by omega) hfails
      have hlonger : b.calls (k + 1) <+: b.calls k ++ b.test k :=
        (b.calls_prefix (by omega)).trans hprefix
      have hlen := hlonger.length_le
      rw [calls_succ, List.length_append] at hlen
      have hpos := List.length_pos_iff.mpr (hrest k)
      omega

/-- The calls of a burst are for its chunks. -/
theorem mem_of_mem_sent {n : Nat} {c : Call} (h : c ∈ b.sent chip before n) :
    ∃ i < n, c ∈ b.test i ∨ c ∈ b.rest i := by
  rcases passes_or_fails b chip before n with hpass | ⟨k, hk, hfails, hpass⟩
  · rw [sent_of_passes hpass] at h
    exact b.mem_calls.mp h
  · rw [sent_of_fails hk hfails hpass] at h
    rcases List.mem_append.mp h with h | h
    · obtain ⟨i, hi, hmem⟩ := b.mem_calls.mp h
      exact ⟨i, Nat.lt_trans hi hk, hmem⟩
    · exact ⟨k, hk, .inl h⟩

end

end Burst

end Smbusb
