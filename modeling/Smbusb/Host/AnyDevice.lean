import Smbusb.Host.Fx2lp

/-!
# Control transfers with any result

What the driver does when the device may answer anything.  A `Script` gives the result of every
control transfer, by its number: it fails, or it moves some bytes and leaves something in the
buffer.  `scripted` is the device that does this, and its state is the number of transfers made.

*Block reads.*  The first byte announces a total, and the rest of the first chunk and the further
chunks are put one behind the other (`Script.stream`).  `Script.Asked` says from the results that
a transfer is made.  Whether the function stays inside the block depends on the last chunk, which
is not cut to what is missing (`staysInside_iff`).  Whether it comes to an end depends on the
chunks not being empty too often, for only an empty first chunk ends it (`endsInTime_iff`).
-/

namespace Smbusb

open Logic Fx2lp

/-! ## Scripts -/

/-- What becomes of a control transfer: it fails with the status `-(e+1)`, or moves `n` bytes,
or all of them when there are fewer. -/
inductive Moved where
  | failed (e : Nat)
  | bytes (n : Nat)
deriving DecidableEq, Repr

/-- The status of a transfer of `length` bytes. -/
def Moved.status (length : Nat) : Moved → Int
  | failed e => Int.negSucc e
  | bytes n => (min n length : Nat)

/-- The result of a control transfer, with the bytes it is about. -/
structure TransferResult where
  moved : Moved
  contents : Vector Byte 64

/-- The bytes the host gets when it asks for `length`. -/
def TransferResult.received (a : TransferResult) (length : Nat) : List Byte :=
  match a.moved with
  | .failed _ => []
  | .bytes n => a.contents.toList.take (min n length)

/-- The results of all transfers. -/
abbrev Script := Nat → TransferResult

/-- The device that follows a script. -/
def scripted (r : Script) : Device Nat where
  out _ _ data n := ((r n).moved.status data.length, n + 1)
  inp _ _ length n := (((r n).moved.status length, (r n).received length), n + 1)

theorem TransferResult.received_of_failed {a : TransferResult} {e : Nat} (h : a.moved = .failed e)
    (length : Nat) : a.received length = [] := by
  rw [TransferResult.received, h]

/-- The status of a transfer that moves bytes is their number. -/
theorem TransferResult.status_of_bytes {a : TransferResult} {n : Nat} (h : a.moved = .bytes n) :
    a.moved.status 64 = (a.received 64).length := by
  simp [TransferResult.received, Moved.status, h]

/-! ## Block reads -/

namespace Script

variable (r : Script)

/-- The total that is announced. -/
def total : Nat := (((r 0).received 64).headD 0).toNat

/-- The data of the first `n` chunks. -/
def stream (n : Nat) : List Byte := ((List.range n).flatMap fun i => (r i).received 64).drop 1

/-- The transfer `n` of a block read is made: the ones before it have moved bytes, the first one
at least one, and not all of the total is there. -/
structure Asked (n : Nat) : Prop where
  moved : ∀ i < n, ∃ k, (r i).moved = .bytes k
  first : 0 < n → (r 0).received 64 ≠ []
  more : 0 < n → (r.stream n).length < r.total

/-- No transfer of a block read brings more than is missing. -/
def Fits : Prop := ∀ n, r.Asked n → (r.stream (n + 1)).length ≤ r.total

/-- The transfers from the number `n` on fail. -/
def cut (n : Nat) : Script := fun i => if i < n then r i else ⟨.failed 0, (r i).contents⟩

theorem length_stream (n : Nat) : (r.stream n).length =
    ((List.range n).flatMap fun i => (r i).received 64).length - 1 := List.length_drop

theorem length_stream_mono {m n : Nat} (h : m ≤ n) :
    (r.stream m).length ≤ (r.stream n).length := by
  obtain ⟨k, rfl⟩ := Nat.exists_eq_add_of_le h
  rw [length_stream, length_stream, List.range_add, List.flatMap_append, List.length_append]
  omega

/-- A further chunk comes behind the others, when the first one is not empty. -/
theorem stream_succ {n : Nat} (hn : 0 < n) (hfirst : (r 0).received 64 ≠ []) :
    r.stream (n + 1) = r.stream n ++ (r n).received 64 := by
  obtain ⟨m, rfl⟩ := Nat.exists_eq_succ_of_ne_zero hn.ne'
  have hlen : 1 ≤ ((List.range (m + 1)).flatMap fun i => (r i).received 64).length := by
    rw [List.range_succ_eq_map, List.flatMap_cons, List.length_append]
    have := List.length_pos_iff.mpr hfirst
    omega
  rw [stream, List.range_succ, List.flatMap_append, List.drop_append_of_le_length hlen]
  simp [stream]

theorem stream_one : r.stream 1 = ((r 0).received 64).drop 1 := by
  simp [stream]

/-- A script is cut behind the transfers that count. -/
theorem stream_cut {m n : Nat} (h : m ≤ n) : (r.cut n).stream m = r.stream m := by
  have hsame : ∀ i ∈ List.range m, ((r.cut n) i).received 64 = (r i).received 64 := by
    intro i hi
    rw [cut, if_pos (Nat.lt_of_lt_of_le (List.mem_range.mp hi) h)]
  rw [stream, stream, List.flatMap_congr hsame]

variable {r} in
theorem Asked.mono {m n : Nat} (h : r.Asked n) (hm : m ≤ n) : r.Asked m :=
  ⟨fun i hi => h.moved i (by omega), fun hpos => h.first (by omega), fun hpos =>
    Nat.lt_of_le_of_lt (r.length_stream_mono hm) (h.more (by omega))⟩

variable {r} in
/-- No transfer is made behind the cut. -/
theorem Asked.le_cut {m n : Nat} (h : (r.cut n).Asked m) : m ≤ n := by
  refine Nat.le_of_not_lt fun hlt => ?_
  obtain ⟨k, hk⟩ := h.moved n hlt
  rw [cut, if_neg (Nat.lt_irrefl n)] at hk
  exact Moved.noConfusion hk

end Script

/-! ## How a block read ends -/

/-- What a block read has come to. -/
inductive BlockReadEnd (r : Script) (fuel : Nat) (data : Mem Byte) :
    Option (Int × Mem Byte) × Nat → Prop where
  | refused : (r 0).received 64 = [] →
      BlockReadEnd r fuel data (some ((r 0).moved.status 64, data), 1)
  | failed {m e : Nat} : 0 < m → r.Asked m → (r m).moved = .failed e →
      BlockReadEnd r fuel data (some (Int.negSucc e, data.write 0 (r.stream m)), m + 1)
  | done {m k : Nat} : r.Asked m → (r m).moved = .bytes k → r.total ≤ (r.stream (m + 1)).length →
      BlockReadEnd r fuel data (some (r.total, data.write 0 (r.stream (m + 1))), m + 1)
  | running : r.Asked fuel → BlockReadEnd r fuel data (none, fuel + 1)

section

variable {r : Script} {fuel : Nat} {data : Mem Byte} {setup : Setup}

/-- The loop, when the transfers up to `m` were made. -/
theorem readBlockRest_ends {m k : Nat} (hasked : r.Asked m) (hm : (r m).moved = .bytes k)
    (hfirst : (r 0).received 64 ≠ []) :
    BlockReadEnd r (m + fuel) data (readBlockRest (scripted r) setup r.total fuel
      (r.stream (m + 1)).length (data.write 0 (r.stream (m + 1))) (m + 1)) := by
  induction fuel generalizing m k with
  | zero => exact .running hasked
  | succ fuel ih =>
      rw [readBlockRest]
      split
      · next hmore =>
        have hnext : r.Asked (m + 1) := by
          refine ⟨fun i hi => ?_, fun _ => hfirst, fun _ => hmore⟩
          rcases Nat.lt_succ_iff_lt_or_eq.mp hi with hi | rfl
          · exact hasked.moved i hi
          · exact ⟨k, hm⟩
        cases hmoved : (r (m + 1)).moved with
        | failed e =>
            simp only [scripted, hmoved, Moved.status]
            rw [if_pos (Int.negSucc_lt_zero e)]
            exact .failed (Nat.succ_pos m) hnext hmoved
        | bytes n =>
            have hstatus : ¬ (r (m + 1)).moved.status 64 < 0 := by
              rw [TransferResult.status_of_bytes hmoved]
              exact Int.not_lt.mpr (Int.natCast_nonneg _)
            have hpos : 0 < m + 1 := Nat.succ_pos m
            have hwrite := Mem.write_append data 0 (r.stream (m + 1)) ((r (m + 1)).received 64)
            rw [Nat.zero_add] at hwrite
            have hloop := ih hnext hmoved
            rw [r.stream_succ hpos hfirst, List.length_append, Nat.add_right_comm] at hloop
            simp only [scripted, hstatus, if_false]
            rw [TransferResult.status_of_bytes hmoved, Int.toNat_natCast, List.take_length, hwrite]
            exact hloop
      · next hmore => exact .done hasked hm (Nat.le_of_not_lt hmore)

variable (r data) in
/-- A block read ends in one of these ways. -/
theorem scripted_readBlock_ends (fuel : Nat) (address : UInt) (command : Byte) :
    BlockReadEnd r fuel data (Fx2lp.readBlock (scripted r) fuel address command data 0) := by
  rw [Fx2lp.readBlock]
  cases hmoved : (r 0).moved with
  | failed e =>
      have hempty : (r 0).received 64 = [] := TransferResult.received_of_failed hmoved 64
      have hstatus : (r 0).moved.status 64 ≤ 0 := by
        rw [hmoved]
        exact (Int.negSucc_lt_zero e).le
      simp only [scripted, hstatus, if_true]
      exact .refused hempty
  | bytes k =>
      have hstatus := TransferResult.status_of_bytes hmoved
      by_cases hempty : (r 0).received 64 = []
      · have hzero : (r 0).moved.status 64 ≤ 0 := by
          rw [hstatus, hempty]
          exact Int.le_refl 0
        simp only [scripted, hzero, if_true]
        exact .refused hempty
      · have hpos : 0 < ((r 0).received 64).length := List.length_pos_iff.mpr hempty
        have hstays : ¬ (r 0).moved.status 64 ≤ 0 := by
          rw [hstatus]
          omega
        have hasked : r.Asked 0 :=
          ⟨fun i hi => absurd hi (Nat.not_lt_zero i), fun h => absurd h (Nat.lt_irrefl 0),
            fun h => absurd h (Nat.lt_irrefl 0)⟩
        have hloop := @readBlockRest_ends r fuel data (setupOf address command) 0 k hasked hmoved
          hempty
        have hlen : ((r 0).received 64).length - 1 = (((r 0).received 64).drop 1).length :=
          List.length_drop.symm
        rw [Nat.zero_add, Script.stream_one] at hloop
        simp only [scripted, hstays, if_false]
        rw [hstatus, Int.toNat_natCast, hlen, List.take_length]
        exact hloop

end

/-! ## Where a block read stores -/

/-- A block read stores nothing at an offset that is not below the total.  `ended` is about what
it leaves when it returns, and `stopped` about what is stored when the transfer `n` is made, which
is what it leaves when that transfer fails. -/
structure StaysInside (r : Script) (address : UInt) (command : Byte) : Prop where
  ended : ∀ fuel data ret mem made,
    Fx2lp.readBlock (scripted r) fuel address command data 0 = (some (ret, mem), made) →
      ∀ k, r.total ≤ k → mem k = data k
  stopped : ∀ n data, ∃ ret mem made,
    Fx2lp.readBlock (scripted (r.cut n)) (n + 1) address command data 0 =
      (some (ret, mem), made) ∧ ∀ k, r.total ≤ k → mem k = data k

section

variable {r : Script} {fuel : Nat} {data mem : Mem Byte} {made : Nat} {ret : Int}

/-- A block read that returns has stored the data of the first chunks. -/
theorem BlockReadEnd.stored (h : BlockReadEnd r fuel data (some (ret, mem), made)) :
    mem = data ∨ ∃ m, r.Asked m ∧ mem = data.write 0 (r.stream (m + 1)) := by
  cases h with
  | refused => exact .inl rfl
  | @failed m e hpos hasked hfailed =>
      refine .inr ⟨m, hasked, ?_⟩
      rw [r.stream_succ hpos (hasked.first hpos), TransferResult.received_of_failed hfailed,
        List.append_nil]
  | done hasked _ _ => exact .inr ⟨_, hasked, rfl⟩

/-- What is stored while all fits. -/
theorem BlockReadEnd.inside (h : BlockReadEnd r fuel data (some (ret, mem), made))
    (hfits : r.Fits) {k : Nat} (hk : r.total ≤ k) : mem k = data k := by
  rcases h.stored with rfl | ⟨m, hasked, rfl⟩
  · rfl
  · have hlen := hfits m hasked
    exact Mem.write_of_ge data (by omega)

/-- The cut leaves what comes before it as it is. -/
theorem Script.asked_cut {m n : Nat} (hm : m ≤ n) : (r.cut n).Asked m ↔ r.Asked m := by
  have hmoved : ∀ i < m, ((r.cut n) i).moved = (r i).moved := by
    intro i hi
    rw [Script.cut, if_pos (by omega)]
  have hzero : 0 < m → (r.cut n) 0 = r 0 := by
    intro hpos
    rw [Script.cut, if_pos (by omega)]
  constructor
  · rintro ⟨h, hfirst, hmore⟩
    refine ⟨fun i hi => hmoved i hi ▸ h i hi, fun hpos => hzero hpos ▸ hfirst hpos, fun hpos => ?_⟩
    have hmore := hmore hpos
    rwa [r.stream_cut hm, Script.total, hzero hpos] at hmore
  · rintro ⟨h, hfirst, hmore⟩
    refine ⟨fun i hi => (hmoved i hi).symm ▸ h i hi, fun hpos => (hzero hpos).symm ▸ hfirst hpos,
      fun hpos => ?_⟩
    have hmore := hmore hpos
    rwa [r.stream_cut hm, Script.total, hzero hpos]

/-- A script that is cut fits where the whole one does. -/
theorem Script.Fits.cut (h : r.Fits) (n : Nat) : (r.cut n).Fits := by
  intro m hasked
  rcases Nat.lt_or_eq_of_le hasked.le_cut with hm | rfl
  · rw [r.stream_cut hm]
    have htotal : (r.cut n).total = r.total := by
      rw [Script.total, Script.cut, if_pos (by omega)]
      rfl
    rw [htotal]
    exact h m ((Script.asked_cut hm.le).mp hasked)
  · rcases Nat.eq_zero_or_pos m with rfl | hpos
    · have hempty : ((r.cut 0) 0).received 64 = [] := by
        refine TransferResult.received_of_failed (e := 0) ?_ 64
        rw [Script.cut, if_neg (Nat.lt_irrefl 0)]
      rw [Script.stream_one, hempty]
      exact Nat.zero_le _
    · have hempty : ((r.cut m) m).received 64 = [] := by
        refine TransferResult.received_of_failed (e := 0) ?_ 64
        rw [Script.cut, if_neg (Nat.lt_irrefl m)]
      rw [Script.stream_succ _ hpos (hasked.first hpos), hempty, List.append_nil]
      exact (hasked.more hpos).le

/-- A transfer that brings too much is the last one, and all of it is stored. -/
theorem BlockReadEnd.overshoot {n : Nat} {res : Option (Int × Mem Byte) × Nat}
    (h : BlockReadEnd r (n + 1) data res) (hasked : r.Asked n)
    (hmore : r.total < (r.stream (n + 1)).length) :
    res = (some ((r.total : Int), data.write 0 (r.stream (n + 1))), n + 1) := by
  have hlast : ∀ m, r.Asked m → m ≤ n := by
    intro m hm
    refine Nat.le_of_not_lt fun hlt => ?_
    have hless := hm.more (by omega)
    have hmono := r.length_stream_mono (show n + 1 ≤ m from hlt)
    omega
  have hfirst : (r 0).received 64 ≠ [] := by
    intro hempty
    rcases Nat.eq_zero_or_pos n with rfl | hpos
    · rw [Script.stream_one, hempty] at hmore
      exact absurd hmore (Nat.not_lt_zero _)
    · exact hasked.first hpos hempty
  cases h with
  | refused hempty => exact absurd hempty hfirst
  | @failed m e hpos hm hfailed =>
      rcases Nat.lt_or_eq_of_le (hlast m hm) with hlt | rfl
      · obtain ⟨k, hk⟩ := hasked.moved m hlt
        exact Moved.noConfusion (hk.symm.trans hfailed)
      · rw [r.stream_succ hpos hfirst, TransferResult.received_of_failed hfailed,
          List.append_nil] at hmore
        exact absurd hmore (Nat.not_lt.mpr (hm.more hpos).le)
  | @done m k hm _ hdone =>
      rcases Nat.lt_or_eq_of_le (hlast m hm) with hlt | rfl
      · have hless := hasked.more (by omega)
        have hmono := r.length_stream_mono (show m + 1 ≤ n from hlt)
        omega
      · rfl
  | running hm => exact absurd (hlast _ hm) (Nat.not_succ_le_self n)

end

/-- `FX2LP_SMBReadBlock` stays inside the block if and only if no transfer it makes brings more
than is missing. -/
theorem staysInside_iff (r : Script) (address : UInt) (command : Byte) :
    StaysInside r address command ↔ r.Fits := by
  constructor
  · intro h n hasked
    refine Nat.le_of_not_lt fun hmore => ?_
    -- The memory holds something else than the byte that comes there.
    have hbyte := List.getElem?_eq_getElem hmore
    generalize (r.stream (n + 1))[r.total] = b at hbyte
    have hrun :=
      (scripted_readBlock_ends r (fun _ => b + 1) (n + 1) address command).overshoot hasked hmore
    have hsame := h.ended _ _ _ _ _ hrun r.total (Nat.le_refl _)
    have hstored := @Mem.write_of_mem Byte (fun _ => b + 1) 0 _ _ _ hbyte
    rw [Nat.zero_add, hsame] at hstored
    exact absurd hstored (by simp)
  · intro hfits
    refine ⟨fun fuel data ret mem made hrun k hk => ?_, fun n data => ?_⟩
    · have hends := scripted_readBlock_ends r data fuel address command
      rw [hrun] at hends
      exact hends.inside hfits hk
    · have hends := scripted_readBlock_ends (r.cut n) data (n + 1) address command
      generalize hres : Fx2lp.readBlock (scripted (r.cut n)) (n + 1) address command data 0 = res
        at hends
      obtain ⟨_ | ⟨ret, mem⟩, made⟩ := res
      · cases hends with
        | running hasked => exact absurd hasked.le_cut (Nat.not_succ_le_self n)
      · refine ⟨ret, mem, made, rfl, fun k hk => ?_⟩
        rcases Nat.eq_zero_or_pos n with rfl | hpos
        · rcases hends.stored with rfl | ⟨m, hasked, rfl⟩
          · rfl
          · obtain rfl := Nat.le_zero.mp hasked.le_cut
            have hempty : ((r.cut 0) 0).received 64 = [] := TransferResult.received_of_failed rfl 64
            rw [Script.stream_one, hempty]
            exact congrFun (Mem.write_nil data 0) k
        · have htotal : (r.cut n).total = r.total := by
            rw [Script.total, Script.cut, if_pos hpos]
            rfl
          exact hends.inside (hfits.cut n) (htotal ▸ hk)

/-- A result that moves `n` bytes, all of them `b`. -/
def TransferResult.all (n : Nat) (b : Byte) : TransferResult := ⟨.bytes n, Vector.replicate 64 b⟩

/-- The last chunk is not cut: 127 bytes are stored for a total of 70. -/
theorem not_staysInside_whole : ¬ StaysInside (fun _ => .all 64 70) 0x16 0x20 := by
  intro h
  have hrun : Fx2lp.readBlock (scripted fun _ => .all 64 70) 2 0x16 0x20 (fun _ => 0) 0 =
      (some (70, (Mem.write (fun _ => 0) 0 (List.replicate 63 70)).write 63
        (List.replicate 64 70)), 2) := rfl
  exact absurd (h.ended _ _ _ _ _ hrun 126 (by decide)) (by decide)

/-! ## Whether a block read ends -/

/-- A block read returns, after a transfer for each byte of the total and one more at most. -/
def EndsInTime (r : Script) (address : UInt) (command : Byte) : Prop :=
  ∀ data, ∃ fuel res made,
    Fx2lp.readBlock (scripted r) fuel address command data 0 = (some res, made) ∧
      made ≤ 1 + r.total

/-- `FX2LP_SMBReadBlock` ends in time if and only if the transfers that come before that do not
all move something or nothing without an error, and less than the total together. -/
theorem endsInTime_iff (r : Script) (address : UInt) (command : Byte) :
    EndsInTime r address command ↔ ¬ r.Asked (1 + r.total) := by
  constructor
  · intro h hasked
    obtain ⟨fuel, res, made, hrun, hmade⟩ := h fun _ => 0
    have hends := scripted_readBlock_ends r (fun _ => 0) fuel address command
    rw [hrun] at hends
    cases hends with
    | refused hempty => exact hasked.first (by omega) hempty
    | @failed m e _ _ hfailed =>
        obtain ⟨k, hk⟩ := hasked.moved m (by omega)
        exact Moved.noConfusion (hk.symm.trans hfailed)
    | @done m k _ _ hdone =>
        have hless := hasked.more (by omega)
        have hmono := r.length_stream_mono hmade
        omega
  · intro hno data
    have hless : ∀ m, r.Asked m → m ≤ r.total := fun m hasked =>
      Nat.le_of_not_lt fun hlt => hno (hasked.mono (by omega))
    have hends := scripted_readBlock_ends r data (1 + r.total) address command
    generalize hres : Fx2lp.readBlock (scripted r) (1 + r.total) address command data 0 = res
      at hends
    refine ⟨1 + r.total, ?_⟩
    rw [hres]
    cases hends with
    | refused _ => exact ⟨_, _, rfl, Nat.le_add_right 1 _⟩
    | failed _ hasked _ =>
        refine ⟨_, _, rfl, ?_⟩
        have hm := hless _ hasked
        omega
    | done hasked _ _ =>
        refine ⟨_, _, rfl, ?_⟩
        have hm := hless _ hasked
        omega
    | running hasked => exact absurd hasked hno

/-- A device that announces 70 bytes, sends 63 of them and then empty chunks. -/
def stalling : Script := fun n => .all (if n = 0 then 64 else 0) 70

theorem length_stream_stalling (n : Nat) : (stalling.stream (n + 1)).length = 63 := by
  induction n with
  | zero => decide
  | succ n ih =>
      have hempty : (stalling (n + 1)).received 64 = [] := rfl
      rw [stalling.stream_succ (Nat.succ_pos n) (by decide), hempty, List.append_nil]
      exact ih

/-- The function asks such a device again and again. -/
theorem not_endsInTime_stalling : ¬ EndsInTime stalling 0x16 0x20 := by
  intro h
  obtain ⟨fuel, res, made, hrun, -⟩ := h fun _ => 0
  have hends := scripted_readBlock_ends stalling (fun _ => 0) fuel 0x16 0x20
  rw [hrun] at hends
  cases hends with
  | refused hempty => exact absurd hempty (by decide)
  | failed _ _ hfailed => exact Moved.noConfusion hfailed
  | done _ _ hdone =>
      rw [length_stream_stalling] at hdone
      exact absurd hdone (by decide)

end Smbusb
