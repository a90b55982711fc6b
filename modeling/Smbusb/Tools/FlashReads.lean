import Smbusb.Tools.FlashTransfers

/-!
# What `readFlash` is worth

`readFlash` of `smbusb_m37512flasher` should return the length only if every read of a chunk gave 16
bytes, which then are what it leaves in `buf`, and no read may store more than 16 bytes in `chunk`
(`ReadSound`).  It ignores what `SMBReadBlock` returns.  So it is sound exactly when no read stores
more than 16 bytes, whatever its status is, and each one returns 16 if all addresses could be set
(`readSound_iff`).
-/

namespace Smbusb

open Logic Prog Tool

namespace M37512

section

variable (chip : Chip) (arrays : Arrays) (address len : Int) (buf : Mem Byte) (s : ToolState)

/-- The read of the chunk `i` is made. -/
def ReadMade (i : Nat) : Prop :=
  ∃ r s', readFlash chip arrays address len buf s = .ok r s' ∧
    s.sent ++ (readBurst address).calls (i + 1) <+: s'.sent

/-- The promise of `readFlash`. -/
structure ReadSound : Prop where
  /-- If the length is returned, every chunk of it is the block that was read for it. -/
  exact : ∀ buf' s', readFlash chip arrays address len buf s = .ok (len, buf') s' →
    ∀ i < chunkCount len, ∃ data, (answer chip s.sent address i).Gives data ∧
      data.length = chunkLen ∧ buf'.read (i * chunkLen) chunkLen = data
  /-- No read stores more than `chunk` holds. -/
  inside : ∀ i < chunkCount len, ReadMade chip arrays address len buf s i →
    (answer chip s.sent address i).data.length ≤ chunkLen

/-- The chips that `readFlash` is sound for. -/
structure GivesWhole (before : List Call) (n : Nat) : Prop where
  whole : (readBurst address).Passes chip before n →
    ∀ i < n, (answer chip before address i).status = chunkLen
  short : ∀ i < n, (readBurst address).Passes chip before (i + 1) →
    (answer chip before address i).data.length ≤ chunkLen

end

section

variable {chip : Chip} {arrays : Arrays} {address len : Int} {buf : Mem Byte} {s : ToolState}

/-- Every call of `readFlash` returns. -/
theorem readFlash_run (hlen : len.tmod chunkLen = 0) : ∃ buf',
    readFlash chip arrays address len buf s = .ok
      (if (readBurst address).Passes chip s.sent (chunkCount len) then len else -1, buf')
      { s with sent := s.sent ++ (readBurst address).sent chip s.sent (chunkCount len) } ∧
    ((readBurst address).Passes chip s.sent (chunkCount len) →
      buf' = buf.write 0 (chunkData chip arrays s.sent address (chunkCount len))) := by
  have hrun : wp (readFlash chip arrays address len buf) (fun r s' =>
      r.1 = (if (readBurst address).Passes chip s.sent (chunkCount len) then len else -1) ∧
      ((readBurst address).Passes chip s.sent (chunkCount len) →
        r.2 = buf.write 0 (chunkData chip arrays s.sent address (chunkCount len))) ∧
      s' = { s with sent := s.sent ++ (readBurst address).sent chip s.sent (chunkCount len) })
      (fun _ _ => False) s := by
    refine wp_readFlash hlen (fun hpass => ?_) fun hfail => ?_
    · exact ⟨(if_pos hpass).symm, fun _ => rfl, rfl⟩
    · exact ⟨(if_neg hfail).symm, fun hpass => absurd hpass hfail, rfl⟩
  obtain ⟨⟨status, buf'⟩, s', hrun, hstatus, hbuf, rfl⟩ := exists_run_of_wp hrun
  dsimp only at hstatus hbuf
  exact ⟨buf', by rw [hrun, hstatus], hbuf⟩

/-- The chunk `i` of what was copied. -/
theorem chunkData_chunk (n i : Nat) (h : i < n) (buf : Mem Byte) :
    (buf.write 0 (chunkData chip arrays s.sent address n)).read (i * chunkLen) chunkLen =
      (chunkAfter chip arrays s.sent address (i + 1)).read 0 chunkLen := by
  induction n with
  | zero => exact absurd h (Nat.not_lt_zero i)
  | succ n ih =>
      rw [chunkData_succ, ← Mem.write_append, Nat.zero_add, length_chunkData]
      rcases Nat.lt_succ_iff_lt_or_eq.mp h with hlt | rfl
      · have hbefore : i * chunkLen + chunkLen ≤ n * chunkLen := by
          rw [← Nat.succ_mul]
          exact Nat.mul_le_mul_right _ hlt
        rw [Mem.read_write_of_disjoint _ (.inl hbefore), ih hlt]
      · have hread := Mem.read_write (buf.write 0 (chunkData chip arrays s.sent address i))
          (i * chunkLen) ((chunkAfter chip arrays s.sent address (i + 1)).read 0 chunkLen)
        rwa [Mem.length_read] at hread

/-- A whole block fills `chunk`. -/
theorem chunk_of_gives {before : List Call} {i : Nat} {data : List Byte}
    (h : (answer chip before address i).Gives data) (hlen : data.length = chunkLen) :
    (chunkAfter chip arrays before address (i + 1)).read 0 chunkLen = data := by
  rw [chunkAfter, ← hlen, Mem.read_write_take _ _ h.2.length_le, h.take]

/-- A read is made if and only if the addresses up to it could be set. -/
theorem readMade_iff (hlen : len.tmod chunkLen = 0) {i : Nat} (hi : i < chunkCount len) :
    ReadMade chip arrays address len buf s i ↔ (readBurst address).Passes chip s.sent (i + 1) := by
  obtain ⟨buf', hrun, -⟩ : ∃ buf', readFlash chip arrays address len buf s = _ ∧ _ :=
    readFlash_run hlen
  rw [← Burst.calls_prefix_sent_iff (fun _ => List.cons_ne_nil _ _) hi]
  constructor
  · rintro ⟨r, s', hrun', hprefix⟩
    obtain ⟨-, rfl⟩ := EStateM.Result.ok.inj (hrun'.symm.trans hrun)
    exact (List.prefix_append_right_inj _).mp hprefix
  · exact fun hprefix => ⟨_, _, hrun, (List.prefix_append_right_inj _).mpr hprefix⟩

/-- When all reads are made, the length is returned. -/
theorem returns_len_iff (hlen : len.tmod chunkLen = 0) {buf' : Mem Byte} {s' : ToolState}
    (hrun : readFlash chip arrays address len buf s = .ok (len, buf') s') :
    (readBurst address).Passes chip s.sent (chunkCount len) ∧
      buf' = buf.write 0 (chunkData chip arrays s.sent address (chunkCount len)) := by
  obtain ⟨buf'', hruns, hbuf⟩ : ∃ buf'', readFlash chip arrays address len buf s = _ ∧ _ :=
    readFlash_run hlen
  obtain ⟨heq, -⟩ := EStateM.Result.ok.inj (hrun.symm.trans hruns)
  obtain ⟨hstatus, rfl⟩ := Prod.mk.inj heq
  have hpass : (readBurst address).Passes chip s.sent (chunkCount len) := by
    by_contra hno
    rw [if_neg hno] at hstatus
    rw [hstatus] at hlen
    cases hlen
  exact ⟨hpass, hbuf hpass⟩

end

/-- `readFlash` is sound exactly for the chips that give whole blocks: of a block it takes neither
the status nor the length for what they are. -/
theorem readSound_iff (chip : Chip) (arrays : Arrays) (address len : Int) (buf : Mem Byte)
    (s : ToolState) (hlen : (chunkLen : Int) ∣ len) :
    ReadSound chip arrays address len buf s ↔
      GivesWhole chip address s.sent (chunkCount len) := by
  have hmod : len.tmod chunkLen = 0 := Int.tmod_eq_zero_of_dvd hlen
  have hmade : ∀ i < chunkCount len, ReadMade chip arrays address len buf s i ↔
      (readBurst address).Passes chip s.sent (i + 1) := fun i hi => readMade_iff hmod hi
  constructor
  · rintro ⟨hexact, hinside⟩
    refine ⟨fun hpass i hi => ?_, fun i hi hpass => hinside i hi ((hmade i hi).mpr hpass)⟩
    obtain ⟨buf', hrun, -⟩ : ∃ buf', readFlash chip arrays address len buf s = _ ∧ _ :=
      readFlash_run hmod
    rw [if_pos hpass] at hrun
    obtain ⟨data, hgives, hdata, -⟩ := hexact buf' _ hrun i hi
    rw [hgives.1, hdata]
  · rintro ⟨hwhole, hshort⟩
    refine ⟨fun buf' s' hrun i hi => ?_, fun i hi h => hshort i hi ((hmade i hi).mp h)⟩
    obtain ⟨hpass, rfl⟩ := returns_len_iff hmod hrun
    have hstatus := hwhole hpass i hi
    have hgives := BlockAnswer.gives_take hstatus
    have hdata := BlockAnswer.length_take hstatus
    refine ⟨_, hgives, hdata, ?_⟩
    rw [chunkData_chunk _ _ hi]
    exact chunk_of_gives hgives hdata

/-- A chip that accepts everything, and gives blocks of zeros. -/
def blankChip : Chip where
  status _ := 0
  errno _ := 0
  block _ := .read (List.replicate chunkLen 0)
  received _ := []

/-- Two chunks are read whole. -/
theorem readSound_iff_blank :
    ReadSound blankChip ⟨fun _ => 0, fun _ => 0, fun _ _ => 0⟩ 0 32 (fun _ => 0) .init :=
  (readSound_iff blankChip _ 0 32 _ .init (by decide)).mpr
    ⟨fun _ _ _ => rfl, fun _ _ _ => Nat.le_refl chunkLen⟩

/-- A chip whose second read fails, when the first transfer of it has stored 63 bytes. -/
def stuckChip : Chip where
  status _ := 0
  errno _ := 0
  block calls :=
    if calls.length ≤ 2 then .read (List.replicate chunkLen 0)
    else ⟨-7, List.replicate 63 0, by decide⟩
  received _ := []

/-- The length is returned for a chip whose second read fails. -/
theorem not_readSound_stuck :
    ¬ ReadSound stuckChip ⟨fun _ => 0, fun _ => 0, fun _ _ => 0⟩ 0 32 (fun _ => 0) .init := by
  intro h
  obtain ⟨data, hgives, -⟩ := h.exact _ _ rfl 1 (by decide)
  have hstatus : (-7 : Int) = data.length := hgives.1
  omega

end M37512

end Smbusb
