import Smbusb.Host.AnyDevice

/-!
# Transfers that are cut short

`SMBWriteBlock`, `SMBWrite` and `SMBRead` send a call in chunks of 64 bytes and a rest.  What they
return when the transfers may do anything.

All three stop at the first chunk that is not moved in full (`ChunkedEnd`).  They return its
status, which is negative when the transfer failed, but the number of bytes when it was short.
`SMBWrite` even returns the length of the call when the rest was short.  And a call of no bytes
makes no transfer, so `SMBWrite` and `SMBRead` return what the local happened to hold.  So a
failure is reported if and only if there is a chunk at all and the first one that is not moved in
full fails (`reportsFailure_iff`).
-/

namespace Smbusb

open Logic Fx2lp

/-! ## Chunks -/

/-- The lengths of the chunks of a call. -/
def chunkLens (n : Nat) : List Nat :=
  List.replicate (n / 64) 64 ++ if n - n / 64 * 64 = 0 then [] else [n - n / 64 * 64]

/-- A transfer of `length` bytes is whole. -/
def TransferResult.Full (a : TransferResult) (length : Nat) : Prop :=
  a.moved.status length = length

instance (a : TransferResult) (length : Nat) : Decidable (a.Full length) :=
  inferInstanceAs (Decidable (_ = _))

/-- The first `k` chunks are moved in full. -/
def FullUpTo (r : Script) (lens : List Nat) (k : Nat) : Prop :=
  ∀ i < k, ∀ len, lens[i]? = some len → (r i).Full len

/-- How a call ends: at the first chunk that is not moved in full, whose status becomes what
`stopped` says, or with `whole`. -/
inductive ChunkedEnd (r : Script) (lens : List Nat) (stopped : Nat → Int → Int) (whole : Int) :
    Int × Nat → Prop where
  | stopped {i len : Nat} : lens[i]? = some len → FullUpTo r lens i → ¬ (r i).Full len →
      ChunkedEnd r lens stopped whole (stopped i ((r i).moved.status len), i + 1)
  | whole : FullUpTo r lens lens.length → ChunkedEnd r lens stopped whole (whole, lens.length)

theorem Moved.status_le (m : Moved) (length : Nat) : m.status length ≤ length := by
  cases m with
  | failed e => exact (Int.negSucc_lt_zero e).le.trans (Int.natCast_nonneg length)
  | bytes n => exact Int.ofNat_le.mpr (Nat.min_le_right n length)

section

variable {n i : Nat}

theorem chunkLens_of_lt (h : i < n / 64) : (chunkLens n)[i]? = some 64 := by
  rw [chunkLens, List.getElem?_append_left (by simpa using h)]
  simp [h]

theorem chunkLens_rest (h : 0 < n - n / 64 * 64) :
    (chunkLens n)[n / 64]? = some (n - n / 64 * 64) := by
  rw [chunkLens, List.getElem?_append_right (by simp), if_neg h.ne']
  simp

theorem length_chunkLens (n : Nat) :
    (chunkLens n).length = n / 64 + if n - n / 64 * 64 = 0 then 0 else 1 := by
  rw [chunkLens, List.length_append, List.length_replicate]
  split <;> rfl

/-- The chunks of a call in front of the rest are those of 64 bytes. -/
theorem fullUpTo_whole {r : Script} {k : Nat} (hk : k ≤ n / 64)
    (h : ∀ i < k, (r i).Full 64) : FullUpTo r (chunkLens n) k := by
  intro i hi len hlen
  rw [chunkLens_of_lt (by omega)] at hlen
  cases hlen
  exact h i hi

end

/-! ## The loops -/

/-- How a loop over chunks of 64 bytes ends, from the chunk `i` on. -/
inductive WholeEnd {A : Type} (r : Script) (i left : Nat) (ok : A → Prop) :
    Except Int A × Nat → Prop where
  | ok {a : A} : (∀ j, i ≤ j → j < i + left → (r j).Full 64) → ok a →
      WholeEnd r i left ok (.ok a, i + left)
  | error {k : Nat} : i ≤ k → k < i + left → (∀ j, i ≤ j → j < k → (r j).Full 64) →
      ¬ (r k).Full 64 → WholeEnd r i left ok (.error ((r k).moved.status 64), k + 1)

/-- A chunk in front of the others. -/
theorem WholeEnd.cons {A : Type} {r : Script} {i left : Nat} {ok : A → Prop}
    {res : Except Int A × Nat} (hfull : (r i).Full 64) (h : WholeEnd r (i + 1) left ok res) :
    WholeEnd r i (left + 1) ok res := by
  have hmore : ∀ {k}, (∀ j, i + 1 ≤ j → j < k → (r j).Full 64) →
      ∀ j, i ≤ j → j < k → (r j).Full 64 := by
    intro k h j hj hlt
    rcases Nat.eq_or_lt_of_le hj with rfl | hj
    · exact hfull
    · exact h j hj hlt
  cases h with
  | ok hall ha =>
      rw [Nat.add_right_comm]
      refine .ok (hmore fun j hj hlt => hall j hj (by omega)) ha
  | error hle hlt hall hno => exact .error (by omega) (by omega) (hmore hall) hno

section

variable (r : Script) (setup : Setup)

theorem writeBlockWhole_ends {tmp : List Byte} {left i : Nat}
    (hlen : (i + left) * 64 ≤ tmp.length) :
    WholeEnd r i left (fun _ => True) (writeBlockWhole (scripted r) setup tmp left i i) := by
  induction left generalizing i with
  | zero => exact .ok (fun j hj hlt => absurd hlt (Nat.not_lt.mpr hj)) trivial
  | succ left ih =>
      have hchunk : ((tmp.drop (i * 64)).take 64).length = 64 := by
        rw [List.length_take, List.length_drop]
        omega
      rw [writeBlockWhole]
      simp only [scripted, hchunk]
      split
      · next hno => exact .error (Nat.le_refl i) (by omega) (fun j hj hlt => by omega) hno
      · next hfull => exact .cons (Classical.not_not.mp hfull) (ih (by omega))

theorem writeWhole_ends (stop : Byte) {data : List Byte} (wholeWrites remainder : Nat)
    {left i : Nat} (rs : Byte) (status : Int) (hlen : (i + left) * 64 ≤ data.length) :
    WholeEnd r i left (fun a => a.2 = if left = 0 then status else 64)
      (writeWhole (scripted r) stop data wholeWrites remainder left i rs status i) := by
  induction left generalizing i rs status with
  | zero => exact .ok (fun j hj hlt => absurd hlt (Nat.not_lt.mpr hj)) rfl
  | succ left ih =>
      have hchunk : ((data.drop (i * 64)).take 64).length = 64 := by
        rw [List.length_take, List.length_drop]
        omega
      rw [writeWhole]
      by_cases hless : (r i).moved.status 64 < 64
      · simp only [scripted, hchunk, hless, if_true]
        refine .error (Nat.le_refl i) (by omega) (fun j hj hlt => by omega) fun hfull => ?_
        rw [hfull] at hless
        exact absurd hless (by decide)
      · have hfull : (r i).moved.status 64 = 64 :=
          Int.le_antisymm ((r i).moved.status_le 64) (Int.not_lt.mp hless)
        have hrest := fun rs => ih rs 64 (i := i + 1) (by omega)
        simp only [ite_self] at hrest
        simp only [scripted, hchunk, hfull, Int.lt_irrefl, if_false]
        exact .cons hfull (hrest _)

theorem readWhole_ends (lastRead : Byte) (wholeReads remainder : Nat) {left i : Nat} (rs : Byte)
    (status : Int) (data : Mem Byte) :
    WholeEnd r i left (fun a => a.2 = if left = 0 then status else 64)
      ((readWhole (scripted r) lastRead wholeReads remainder left i rs status data i).1,
        (readWhole (scripted r) lastRead wholeReads remainder left i rs status data i).2.2) := by
  induction left generalizing i rs status data with
  | zero => exact .ok (fun j hj hlt => absurd hlt (Nat.not_lt.mpr hj)) rfl
  | succ left ih =>
      rw [readWhole]
      by_cases hless : (r i).moved.status 64 < 64
      · simp only [scripted, hless, if_true]
        refine .error (Nat.le_refl i) (by omega) (fun j hj hlt => by omega) fun hfull => ?_
        rw [hfull] at hless
        exact absurd hless (by decide)
      · have hfull : (r i).moved.status 64 = 64 :=
          Int.le_antisymm ((r i).moved.status_le 64) (Int.not_lt.mp hless)
        have hrest := fun rs data => ih rs 64 data (i := i + 1)
        simp only [ite_self] at hrest
        simp only [scripted, hfull, Int.lt_irrefl, if_false]
        exact .cons hfull (hrest _ _)

end

/-! ## The three functions -/

section

variable {r : Script} {n : Nat} {stopped : Nat → Int → Int} {whole : Int}

/-- The chunks and the rest are moved in full. -/
theorem fullUpTo_all (h : ∀ i < n / 64, (r i).Full 64)
    (hrest : 0 < n - n / 64 * 64 → (r (n / 64)).Full (n - n / 64 * 64)) :
    FullUpTo r (chunkLens n) (chunkLens n).length := by
  intro i hi len hlen
  by_cases hlt : i < n / 64
  · rw [chunkLens_of_lt hlt] at hlen
    cases hlen
    exact h i hlt
  · rw [length_chunkLens] at hi
    have hpos : 0 < n - n / 64 * 64 := by
      split at hi <;> omega
    obtain rfl : i = n / 64 := by
      split at hi <;> omega
    rw [chunkLens_rest hpos] at hlen
    cases hlen
    exact hrest hpos

/-- A loop that stops at a chunk. -/
theorem ChunkedEnd.of_error {k : Nat} (hlt : k < n / 64)
    (hall : ∀ j, 0 ≤ j → j < k → (r j).Full 64) (hno : ¬ (r k).Full 64) :
    ChunkedEnd r (chunkLens n) stopped whole (stopped k ((r k).moved.status 64), k + 1) :=
  .stopped (chunkLens_of_lt hlt) (fullUpTo_whole hlt.le fun i hi => hall i (Nat.zero_le i) hi) hno

/-- The rest behind the chunks. -/
theorem ChunkedEnd.of_rest (hpos : 0 < n - n / 64 * 64)
    (hall : ∀ j, 0 ≤ j → j < 0 + n / 64 → (r j).Full 64) {ret : Int}
    (hfull : (r (n / 64)).Full (n - n / 64 * 64) → ret = whole)
    (hno : ¬ (r (n / 64)).Full (n - n / 64 * 64) →
      ret = stopped (n / 64) ((r (n / 64)).moved.status (n - n / 64 * 64))) :
    ChunkedEnd r (chunkLens n) stopped whole (ret, n / 64 + 1) := by
  have hchunks : ∀ i < n / 64, (r i).Full 64 := fun i hi => hall i (Nat.zero_le i) (by omega)
  by_cases h : (r (n / 64)).Full (n - n / 64 * 64)
  · have hlen : n / 64 + 1 = (chunkLens n).length := by
      rw [length_chunkLens, if_neg hpos.ne']
    rw [hfull h, hlen]
    exact .whole (fullUpTo_all hchunks fun _ => h)
  · rw [hno h]
    exact .stopped (chunkLens_rest hpos) (fullUpTo_whole (Nat.le_refl _) hchunks) h

/-- No rest behind the chunks. -/
theorem ChunkedEnd.of_chunks (hzero : ¬ 0 < n - n / 64 * 64)
    (hall : ∀ j, 0 ≤ j → j < 0 + n / 64 → (r j).Full 64) :
    ChunkedEnd r (chunkLens n) stopped whole (whole, 0 + n / 64) := by
  have hlen : 0 + n / 64 = (chunkLens n).length := by
    rw [length_chunkLens, if_pos (by omega), Nat.zero_add, Nat.add_zero]
  have hchunks : ∀ i < n / 64, (r i).Full 64 := fun i hi => hall i (Nat.zero_le i) (by omega)
  rw [hlen]
  exact .whole (fullUpTo_all hchunks fun hpos => absurd hpos hzero)

end

section

variable (r : Script)

theorem writeBlock_ends (address : UInt) (command len : Byte) (data : Vector Byte len.toNat) :
    ChunkedEnd r (chunkLens (len.toNat + 1)) (fun _ status => status) len.toNat
      (Fx2lp.writeBlock (scripted r) address command data.toList len 0) := by
  have hlen : (len :: data.toList.take len.toNat).length = len.toNat + 1 := by simp
  have hloop := @writeBlockWhole_ends r (setupOf address command)
    (len :: data.toList.take len.toNat) ((len.toNat + 1) / 64) 0 (by rw [hlen]; omega)
  rw [Fx2lp.writeBlock]
  generalize writeBlockWhole (scripted r) (setupOf address command)
    (len :: data.toList.take len.toNat) ((len.toNat + 1) / 64) 0 0 = res at hloop
  cases hloop with
  | error _ hlt hall hno => exact .of_error (by omega) hall hno
  | @ok a hall _ =>
      simp only
      split
      · next hpos =>
        have hrest : (((len :: data.toList.take len.toNat).drop ((len.toNat + 1) / 64 * 64)).take
            (len.toNat + 1 - (len.toNat + 1) / 64 * 64)).length =
              len.toNat + 1 - (len.toNat + 1) / 64 * 64 := by
          rw [List.length_take, List.length_drop, hlen]
          omega
        simp only [scripted, hrest, Nat.zero_add]
        split
        · next hno => exact .of_rest hpos hall (fun hfull => absurd hfull hno) fun _ => rfl
        · next hfull =>
          exact .of_rest hpos hall (fun _ => rfl) fun hno => absurd (Classical.not_not.mp hfull) hno
      · next hzero => exact .of_chunks hzero hall

theorem write_ends (status : Int) (start restart stop : Byte) {data : List Byte}
    (hne : data ≠ []) :
    ChunkedEnd r (chunkLens data.length)
      (fun i s => if data.length / 64 ≤ i ∧ 0 < s then data.length else s) data.length
      (Fx2lp.write (scripted r) status start restart stop data 0) := by
  have hlen := List.length_pos_iff.mpr hne
  rw [Fx2lp.write]
  dsimp only
  generalize (if restart ≠ 0 then _ else _ : Byte) = rs
  have hloop := @writeWhole_ends r stop data (data.length / 64)
    (data.length - data.length / 64 * 64) (data.length / 64) 0 rs status (by omega)
  generalize writeWhole (scripted r) stop data (data.length / 64)
    (data.length - data.length / 64 * 64) (data.length / 64) 0 rs status 0 = res at hloop
  cases hloop with
  | @error k _ hlt hall hno =>
      have hend : ChunkedEnd r (chunkLens data.length)
          (fun i s => if data.length / 64 ≤ i ∧ 0 < s then data.length else s) data.length _ :=
        .of_error (by omega) hall hno
      rwa [if_neg fun h => absurd h.1 (by omega)] at hend
  | @ok a hall hstatus =>
      obtain ⟨rs, status⟩ := a
      by_cases hpos : 0 < data.length - data.length / 64 * 64
      · have hrest : ((data.drop (data.length / 64 * 64)).take
            (data.length - data.length / 64 * 64)).length =
              data.length - data.length / 64 * 64 := by
          rw [List.length_take, List.length_drop]
          omega
        simp only [hpos, if_true, scripted, hrest, Nat.zero_add]
        refine .of_rest hpos hall (fun hfull => ?_) fun _ => ?_
        · rw [hfull, if_pos (by omega)]
        · simp only [Nat.le_refl, true_and]
      · simp only [hpos, if_false]
        have hend : status = 64 := by
          rw [show status = _ from hstatus, if_neg (by omega)]
        rw [hend, if_pos (by decide)]
        exact .of_chunks hpos hall

theorem smbRead_ends (status : Int) {len : Nat} (hne : 0 < len) (data : Mem Byte)
    (lastRead : Byte) :
    ChunkedEnd r (chunkLens len) (fun _ s => s)
      (if 0 < len - len / 64 * 64 then (len - len / 64 * 64 : Nat) else 64)
      ((Fx2lp.read (scripted r) status len data lastRead 0).1,
        (Fx2lp.read (scripted r) status len data lastRead 0).2.2) := by
  rw [Fx2lp.read]
  dsimp only
  have hloop := @readWhole_ends r lastRead (len / 64) (len - len / 64 * 64) (len / 64) 0
    readCmdFirstRead status data
  generalize readWhole (scripted r) lastRead (len / 64) (len - len / 64 * 64) (len / 64) 0
    readCmdFirstRead status data 0 = res at hloop
  obtain ⟨res, mem, made⟩ := res
  dsimp only at hloop
  cases hloop with
  | error _ hlt hall hno => exact .of_error (by omega) hall hno
  | @ok a hall hstatus =>
      obtain ⟨rs, status⟩ := a
      by_cases hpos : 0 < len - len / 64 * 64
      · simp only [hpos, if_true, scripted, Nat.zero_add]
        exact .of_rest hpos hall (fun hfull => hfull) fun _ => rfl
      · simp only [hpos, if_false]
        have hend : status = 64 := by
          rw [show status = _ from hstatus, if_neg (by omega)]
        rw [hend]
        exact .of_chunks hpos hall

end

/-! ## What is reported -/

/-- A failure of a call is reported, whatever an uninitialised local holds.  `call` gives what is
returned, and the number of transfers made, for this local and for the results of the
transfers. -/
structure ReportsFailure (r : Script) (lens : List Nat) (call : Int → Script → Int × Nat) :
    Prop where
  /-- What is returned is not negative only if all was moved. -/
  whole : ∀ status, 0 ≤ (call status r).1 → FullUpTo r lens lens.length
  /-- A chunk that is not moved in full is the last one, and what is returned is negative. -/
  stops : ∀ status i len, lens[i]? = some len → FullUpTo r lens i → ¬ (r i).Full len →
    (call status r).1 < 0 ∧ (call status r).2 = i + 1
  /-- Nothing else decides what is returned. -/
  determined : ∀ status status' r', (∀ i, (r' i).moved = (r i).moved) →
    (call status' r').1 = (call status r).1

/-- No chunk is short, in front of a transfer that fails. -/
def Loud (r : Script) (lens : List Nat) : Prop :=
  ∀ i len, lens[i]? = some len → FullUpTo r lens i → ¬ (r i).Full len → ∃ e, (r i).moved = .failed e

section

variable {r r' : Script} {lens : List Nat} {stopped : Nat → Int → Int} {whole : Int}
  {res res' : Int × Nat}

theorem ChunkedEnd.whole_or (h : ChunkedEnd r lens stopped whole res) :
    FullUpTo r lens lens.length ∨
      ∃ i len, lens[i]? = some len ∧ FullUpTo r lens i ∧ ¬ (r i).Full len := by
  cases h with
  | stopped hi hbefore hno => exact .inr ⟨_, _, hi, hbefore, hno⟩
  | whole hall => exact .inl hall

/-- The first chunk that is not moved in full decides. -/
theorem ChunkedEnd.of_stopped (h : ChunkedEnd r lens stopped whole res) {i len : Nat}
    (hi : lens[i]? = some len) (hbefore : FullUpTo r lens i) (hno : ¬ (r i).Full len) :
    res = (stopped i ((r i).moved.status len), i + 1) := by
  have hlt := (List.getElem?_eq_some_iff.mp hi).1
  cases h with
  | @stopped j len' hj hbefore' hno' =>
      rcases Nat.lt_trichotomy i j with hij | rfl | hij
      · exact absurd (hbefore' i hij len hi) hno
      · obtain rfl := Option.some.inj (hi.symm.trans hj)
        rfl
      · exact absurd (hbefore j hij len' hj) hno'
  | whole hall => exact absurd (hall i hlt len hi) hno

theorem ChunkedEnd.of_whole (h : ChunkedEnd r lens stopped whole res)
    (hall : FullUpTo r lens lens.length) : res = (whole, lens.length) := by
  cases h with
  | @stopped j len' hj _ hno =>
      exact absurd (hall j (List.getElem?_eq_some_iff.mp hj).1 len' hj) hno
  | whole _ => rfl

/-- Results with the same statuses end a call in the same way. -/
theorem ChunkedEnd.determined (h : ChunkedEnd r lens stopped whole res)
    (h' : ChunkedEnd r' lens stopped whole res') (hsame : ∀ i, (r' i).moved = (r i).moved) :
    res' = res := by
  have hfull : ∀ i len, (r' i).Full len ↔ (r i).Full len := by
    intro i len
    rw [TransferResult.Full, hsame]
    rfl
  have hup : ∀ k, FullUpTo r' lens k ↔ FullUpTo r lens k := fun k =>
    forall₂_congr fun i _ => forall₂_congr fun len _ => hfull i len
  cases h with
  | stopped hi hbefore hno =>
      rw [h'.of_stopped hi ((hup _).mpr hbefore) fun h => hno ((hfull _ _).mp h), hsame]
  | whole hall => exact h'.of_whole ((hup _).mpr hall)

end

/-- When there is a chunk, the failures of a call are reported if and only if no chunk is short. -/
theorem reportsFailure_of_ends {lens : List Nat} {call : Int → Script → Int × Nat}
    {stopped : Nat → Int → Int} {whole : Int}
    (hends : ∀ status r, ChunkedEnd r lens stopped whole (call status r))
    (hneg : ∀ i s, stopped i s < 0 ↔ s < 0) (r : Script) :
    ReportsFailure r lens call ↔ Loud r lens := by
  constructor
  · intro h i len hi hbefore hno
    have hret := (h.stops 0 i len hi hbefore hno).1
    rw [(hends 0 r).of_stopped hi hbefore hno, hneg] at hret
    cases hmoved : (r i).moved with
    | failed e => exact ⟨e, rfl⟩
    | bytes n =>
        rw [hmoved] at hret
        exact absurd hret (Int.not_lt.mpr (Int.natCast_nonneg _))
  · intro h
    have hstops : ∀ status i len, lens[i]? = some len → FullUpTo r lens i → ¬ (r i).Full len →
        (call status r).1 < 0 ∧ (call status r).2 = i + 1 := by
      intro status i len hi hbefore hno
      obtain ⟨e, hmoved⟩ := h i len hi hbefore hno
      rw [(hends status r).of_stopped hi hbefore hno]
      refine ⟨(hneg _ _).mpr ?_, rfl⟩
      rw [hmoved]
      exact Int.negSucc_lt_zero e
    refine ⟨fun status hret => ?_, hstops, fun status status' r' hsame => ?_⟩
    · rcases (hends status r).whole_or with hall | ⟨i, len, hi, hbefore, hno⟩
      · exact hall
      · exact absurd hret (Int.not_le.mpr (hstops status i len hi hbefore hno).1)
    · rw [(hends status r).determined (hends status' r') hsame]

/-- `SMBWriteBlock`, `SMBWrite` and `SMBRead` report failures if and only if there is a chunk, and
the first one that is not moved in full is a transfer that fails. -/
theorem reportsFailure_iff (r : Script) (address : UInt) (command : Byte)
    (start restart stop lastRead : Byte) :
    (∀ (len : Byte) (data : Vector Byte len.toNat),
      ReportsFailure r (chunkLens (len.toNat + 1)) (fun _ r =>
        Fx2lp.writeBlock (scripted r) address command data.toList len 0) ↔
          Loud r (chunkLens (len.toNat + 1))) ∧
    (∀ data : List Byte,
      ReportsFailure r (chunkLens data.length) (fun status r =>
        Fx2lp.write (scripted r) status start restart stop data 0) ↔
          data ≠ [] ∧ Loud r (chunkLens data.length)) ∧
    ∀ (len : Nat) (data : Mem Byte),
      ReportsFailure r (chunkLens len) (fun status r =>
        ((Fx2lp.read (scripted r) status len data lastRead 0).1,
          (Fx2lp.read (scripted r) status len data lastRead 0).2.2)) ↔
            0 < len ∧ Loud r (chunkLens len) := by
  refine ⟨fun len data => ?_, fun data => ?_, fun len data => ?_⟩
  · exact reportsFailure_of_ends (fun _ r => writeBlock_ends r address command len data)
      (fun _ _ => Iff.rfl) r
  · rcases eq_or_ne data [] with rfl | hne
    · -- Nothing is sent, and the local is returned.
      refine ⟨fun h => ?_, fun h => absurd rfl h.1⟩
      have hsame := h.determined 0 (-1) r fun _ => rfl
      simp [Fx2lp.write, writeWhole] at hsame
    · rw [and_iff_right hne]
      refine reportsFailure_of_ends (fun status r =>
        write_ends r status start restart stop hne) (fun i s => ?_) r
      split <;> omega
  · rcases Nat.eq_zero_or_pos len with rfl | hpos
    · refine ⟨fun h => ?_, fun h => absurd h.1 (Nat.lt_irrefl 0)⟩
      have hsame : (-1 : Int) = 0 := h.determined 0 (-1) r fun _ => rfl
      exact absurd hsame (by decide)
    · rw [and_iff_right hpos]
      exact reportsFailure_of_ends (fun status r => smbRead_ends r status hpos data lastRead)
        (fun _ _ => Iff.rfl) r

/-- One of three bytes was sent, and the function returns 1. -/
theorem not_reportsFailure_short : ¬ ReportsFailure (fun _ => .all 1 0) (chunkLens 3)
    (fun _ r => Fx2lp.writeBlock (scripted r) 0x16 0x20 [7, 8] 2 0) := by
  intro h
  have hstops := h.stops 0 0 3 rfl (fun i hi => absurd hi (Nat.not_lt_zero i)) (by decide)
  exact absurd hstops.1 (by decide)

end Smbusb
