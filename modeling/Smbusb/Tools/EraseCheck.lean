import Smbusb.Tools.RamTransfers

/-!
# The check behind an erase of the R2J240

When the status cannot be read behind the command that erases a block, `eraseFlashBlock` of
`smbusb_r2j240flasher` reads the block back, ten times at most, and should report a success only if
it has seen it erased (`EraseChecked`).  Each read overwrites `status`, and the status of the last
one is what is left when no read has seen the block erased.  So the check is sound exactly when a
read has seen it erased or the last one fails (`eraseChecked_iff`).
-/

namespace Smbusb

open Logic Prog Tool

namespace R2j240

/-- The largest number of reads. -/
def readBacks : Nat := 10

section

variable (chip : Chip) (address size : UInt)

/-- The status cannot be read: the read times out. -/
structure TimesOut (before : List Call) : Prop where
  erase : 0 ≤ chip.status (before ++ [eraseCall address])
  status : chip.status (before ++ [eraseCall address] ++ [.readWord cmdReadClearStatusReg]) < 0
  errno : chip.errno (before ++ [eraseCall address] ++ [.readWord cmdReadClearStatusReg]) =
    etimedout

/-- The calls before the read `j`, when the reads before it have not seen the block erased. -/
def backs (before : List Call) : Nat → List Call
  | 0 => before ++ [eraseCall address] ++ [.readWord cmdReadClearStatusReg]
  | j + 1 => backs before j ++
      (readBurst address size).sent chip (backs before j) (readCount size)

/-- A read that is made after these calls succeeds. -/
def ReadsBack (calls : List Call) : Prop :=
  (readBurst address size).Passes chip calls (readCount size)

instance (calls : List Call) : Decidable (ReadsBack chip address size calls) :=
  inferInstanceAs (Decidable ((readBurst address size).Passes chip calls (readCount size)))

/-- It succeeds, and gives an erased block. -/
structure ReadsErased (calls : List Call) : Prop where
  succeeds : ReadsBack chip address size calls
  erased : readData chip calls address size (readCount size) = List.replicate size.toNat 0xFF

/-- A read has seen the block erased. -/
def SeenErased (before : List Call) : Prop :=
  ∃ j < readBacks, ReadsErased chip address size (backs chip address size before j)

/-- What a read returns. -/
def readReturns (calls : List Call) : Int :=
  if ReadsBack chip address size calls then size.toInt else -1

/-- The promise: a success, and a run that goes on, mean that the block was seen erased. -/
structure EraseChecked (arrays : Arrays) (s : ToolState) : Prop where
  positive : ∀ status s', eraseFlashBlock chip arrays address size s = .ok status s' →
    0 < status → SeenErased chip address size s.sent
  goesOn : ∀ v : RamVars, toUnsigned v.opAddress = address → toUnsigned v.opSize = size → ∀ s',
    eraseOrExit chip arrays v s = .ok () s' → SeenErased chip address size s.sent

end

section

variable {chip : Chip} {address size : UInt} {arrays : Arrays} {s : ToolState}
  {E : Int → ToolState → Prop}

/-- One read. -/
theorem wp_readRam_back {Q : Int × Mem Byte → ToolState → Prop} {before : List Call} {j : Nat}
    {buf : Mem Byte} (hs : s.sent = backs chip address size before j)
    (hQ : ∀ buf' s', s'.sent = backs chip address size before (j + 1) →
      (ReadsBack chip address size (backs chip address size before j) →
        buf'.read 0 size.toNat =
          readData chip (backs chip address size before j) address size (readCount size)) →
      Q (readReturns chip address size (backs chip address size before j), buf') s') :
    wp (readRam chip address size buf) Q E s := by
  refine wp_readRam (fun hpass => ?_) fun hfail buf' => ?_
  · rw [hs] at hpass ⊢
    have hreturns : readReturns chip address size (backs chip address size before j) =
        size.toInt := if_pos hpass
    rw [← hreturns]
    refine hQ _ _ rfl fun _ => ?_
    have hread := Mem.read_write buf 0
      (readData chip (backs chip address size before j) address size (readCount size))
    rwa [length_readData, readCount, covered_pieceCount readLen_pos, ← readCount] at hread
  · rw [hs] at hfail ⊢
    have hreturns : readReturns chip address size (backs chip address size before j) = -1 :=
      if_neg hfail
    rw [← hreturns]
    exact hQ _ _ rfl fun hpass => absurd hpass hfail

/-- The read `j` ends the loop. -/
structure Sees (chip : Chip) (address size : UInt) (before : List Call) (j : Nat) : Prop
    extends ReadsErased chip address size (backs chip address size before j) where
  nonneg : 0 ≤ size.toInt

/-- What the loop returns that makes `turns` reads from the read `j` on. -/
structure BackEnds (chip : Chip) (address size : UInt) (before : List Call) (j turns : Nat)
    (status r : Int) : Prop where
  seen : ∀ i < turns, Sees chip address size before (j + i) → r = 1
  unseen : (∀ i < turns, ¬ Sees chip address size before (j + i)) →
    r = if turns = 0 then status
      else readReturns chip address size (backs chip address size before (j + turns - 1))

/-- One more read before the others, which has not seen the block erased. -/
theorem BackEnds.succ {before : List Call} {j turns : Nat} {status r : Int}
    (hno : ¬ Sees chip address size before j)
    (h : BackEnds chip address size before (j + 1) turns
      (readReturns chip address size (backs chip address size before j)) r) :
    BackEnds chip address size before j (turns + 1) status r := by
  have hshift : ∀ i, j + 1 + i = j + (i + 1) := fun i => by omega
  constructor
  · intro i hi hsees
    cases i with
    | zero => exact absurd hsees hno
    | succ i =>
        rw [← hshift] at hsees
        exact h.seen i (Nat.lt_of_succ_lt_succ hi) hsees
  · intro hnone
    have hr := h.unseen fun i hi => by
      rw [hshift]
      exact hnone (i + 1) (Nat.succ_lt_succ hi)
    rw [hr, if_neg (Nat.succ_ne_zero turns), hshift]
    split
    · next hzero => rw [hzero, Nat.zero_add, Nat.add_sub_cancel]
    · rfl

/-- From the read `j` on. -/
theorem wp_readBack {before : List Call} {turns j : Nat} {status : Int} {buf : Mem Byte}
    (hs : s.sent = backs chip address size before j) :
    wp (readBack chip address size turns status buf)
      (fun r _ => BackEnds chip address size before j turns status r) E s := by
  induction turns generalizing j status buf s with
  | zero => exact ⟨fun i hi => absurd hi (Nat.not_lt_zero i), fun _ => (if_pos rfl).symm⟩
  | succ turns ih =>
      rw [readBack, wp_bind]
      refine wp_readRam_back hs fun buf' s' hs' hread => ?_
      have hgo : ¬ Sees chip address size before j → wp (readBack chip address size turns
          (readReturns chip address size (backs chip address size before j)) buf')
          (fun r _ => BackEnds chip address size before j (turns + 1) status r) E s' :=
        fun hno => wp_mono (ih hs') (fun _ _ h => h.succ hno) fun _ _ h => h
      rw [wp_ite]
      split
      · next hneg =>
        refine hgo fun hsees => ?_
        rw [readReturns, if_pos hsees.succeeds] at hneg
        exact absurd hneg (Int.not_lt.mpr hsees.nonneg)
      · next hnonneg =>
        have hpass : ReadsBack chip address size (backs chip address size before j) := by
          by_contra hno
          rw [readReturns, if_neg hno] at hnonneg
          exact hnonneg (by decide)
        rw [readReturns, if_pos hpass, Int.not_lt] at hnonneg
        rw [wp_ite, hread hpass]
        split
        · next herased =>
          exact ⟨fun _ _ _ => rfl, fun hnone =>
            absurd ⟨⟨hpass, herased⟩, hnonneg⟩ (hnone 0 (Nat.succ_pos turns))⟩
        · next hno => exact hgo fun hsees => hno hsees.erased

variable (arrays) in
/-- What `eraseFlashBlock` returns when the status cannot be read. -/
theorem eraseFlashBlock_run (htimes : TimesOut chip address s.sent) (hsize : size ≠ 0) :
    ∃ status r s', eraseFlashBlock chip arrays address size s = .ok r s' ∧
      BackEnds chip address size s.sent 0 readBacks status r := by
  have hrun : wp (eraseFlashBlock chip arrays address size) (fun r _ =>
      ∃ status, BackEnds chip address size s.sent 0 readBacks status r) (fun _ _ => False) s := by
    rw [eraseFlashBlock, wp_bind, wp_call, if_neg (Int.not_lt.mpr htimes.erase), wp_bind, wp_call,
      wp_bind, wp_get, if_pos ⟨htimes.status, htimes.errno, hsize⟩]
    exact wp_mono (wp_readBack rfl) (fun _ _ h => ⟨_, h⟩) fun _ _ h => h
  obtain ⟨r, s', hrun, status, hends⟩ := exists_run_of_wp hrun
  exact ⟨status, r, s', hrun, hends⟩

/-- A run goes on behind a success only. -/
theorem positive_of_goesOn {v : RamVars} {s' : ToolState}
    (hrun : eraseOrExit chip arrays v s = .ok () s') :
    ∃ status s'', eraseFlashBlock chip arrays (toUnsigned v.opAddress) (toUnsigned v.opSize) s =
      .ok status s'' ∧ 0 < status := by
  simp only [eraseOrExit, bind, EStateM.bind] at hrun
  split at hrun
  · next status s'' herase =>
    split at hrun
    · cases hrun
    · next hpos => exact ⟨status, s'', herase, Int.not_le.mp hpos⟩
  · cases hrun

/-- A positive status behind the reads. -/
theorem BackEnds.positive {before : List Call} {status r : Int}
    (h : BackEnds chip address size before 0 readBacks status r) (hpos : 0 < r) :
    SeenErased chip address size before ∨
      ReadsBack chip address size (backs chip address size before (readBacks - 1)) ∧
        0 < size.toInt := by
  by_cases hsees : ∃ i < readBacks, Sees chip address size before (0 + i)
  · obtain ⟨i, hi, hsees⟩ := hsees
    rw [Nat.zero_add] at hsees
    exact .inl ⟨i, hi, hsees.toReadsErased⟩
  · have hr := h.unseen fun i hi hsees' => hsees ⟨i, hi, hsees'⟩
    rw [if_neg (by decide), Nat.zero_add, readReturns] at hr
    split at hr
    · next hreads => exact .inr ⟨hreads, hr ▸ hpos⟩
    · rw [hr] at hpos
      exact absurd hpos (by decide)

/-- When no read has seen the block erased, the status of the last one is returned. -/
theorem BackEnds.unseen_eq {before : List Call} {status r : Int}
    (h : BackEnds chip address size before 0 readBacks status r)
    (hno : ¬ SeenErased chip address size before) :
    r = readReturns chip address size (backs chip address size before (readBacks - 1)) := by
  have hr := h.unseen fun i hi hsees => by
    rw [Nat.zero_add] at hsees
    exact hno ⟨i, hi, hsees.toReadsErased⟩
  rwa [if_neg (by decide), Nat.zero_add] at hr

end

/-- The check is sound exactly when a read has seen the block erased, the last read fails, or the
size is none that can be returned. -/
theorem eraseChecked_iff (chip : Chip) (arrays : Arrays) (address size : UInt) (s : ToolState)
    (htimes : TimesOut chip address s.sent) (hsize : size ≠ 0) :
    EraseChecked chip address size arrays s ↔
      SeenErased chip address size s.sent ∨
        ¬ ReadsBack chip address size (backs chip address size s.sent (readBacks - 1)) ∨
        size.toInt < 0 := by
  obtain ⟨status, r, s', hrun, hends⟩ := eraseFlashBlock_run arrays htimes hsize
  constructor
  · intro hchecked
    by_contra hno
    simp only [not_or, not_not, Int.not_lt] at hno
    obtain ⟨hunseen, hreads, hnonneg⟩ := hno
    have hr := hends.unseen_eq hunseen
    rw [readReturns, if_pos hreads] at hr
    have hne : size.toInt ≠ 0 := fun hzero => hsize (BitVec.toInt_inj.mp hzero)
    exact hunseen (hchecked.positive r s' hrun (by omega))
  · intro hcond
    have hpositive : ∀ status' s'', eraseFlashBlock chip arrays address size s = .ok status' s'' →
        0 < status' → SeenErased chip address size s.sent := by
      intro status' s'' hrun' hpos
      obtain ⟨rfl, -⟩ := EStateM.Result.ok.inj (hrun'.symm.trans hrun)
      rcases hends.positive hpos with hseen | ⟨hreads, hsizepos⟩
      · exact hseen
      · rcases hcond with hseen | hfails | hneg
        · exact hseen
        · exact absurd hreads hfails
        · exact absurd hsizepos (Int.lt_asymm hneg)
    refine ⟨hpositive, fun v hv hv' s'' hgoes => ?_⟩
    obtain ⟨status', s₁, herase, hpos⟩ := positive_of_goesOn hgoes
    rw [hv, hv'] at herase
    exact hpositive status' s₁ herase hpos

/-- A chip whose status cannot be read, and whose RAM reads as zeros. -/
def silentChip : Chip where
  status calls := if calls.getLast? = some (.readWord cmdReadClearStatusReg) then -1 else 0
  errno _ := etimedout
  block _ := .failed 0
  received _ := []

/-- A block of two pieces, and a chip whose status read times out. -/
theorem eraseChecked_iff_silent :
    EraseChecked silentChip 0 80 ⟨fun _ => 0, fun _ => 0, fun _ _ => 0⟩ .init ↔
      SeenErased silentChip 0 80 [] ∨
        ¬ ReadsBack silentChip 0 80 (backs silentChip 0 80 [] (readBacks - 1)) ∨
        (80 : UInt).toInt < 0 :=
  eraseChecked_iff silentChip _ 0 80 .init ⟨by decide, by decide, rfl⟩ (by decide)

/-- 80 bytes 0 are read ten times, and 80 is returned. -/
theorem not_eraseChecked_silent :
    ¬ EraseChecked silentChip 0 80 ⟨fun _ => 0, fun _ => 0, fun _ _ => 0⟩ .init := by
  intro h
  obtain ⟨j, -, hreads⟩ := h.positive 80 _ rfl (by decide)
  have hdata : readData silentChip (backs silentChip 0 80 [] j) 0 80 (readCount 80) =
      List.replicate 80 0 := rfl
  have herased := hreads.erased
  rw [show ToolState.init.sent = [] from rfl, hdata] at herased
  exact absurd herased (by decide)

end R2j240

end Smbusb
