import Smbusb.Tools.FlashReads

/-!
# Writing the flash of an M37512 and reading it back

A chip is faithful (`FlashChip`) when there is a memory behind its answers: a block that is written
is stored at the 16-bit address in front of it, and a block that is read comes from the address that
was set last.  For such a chip `writeFlash` changes the range it is asked to, and nothing else, and
`readFlash` gives back what was written (`flash_round_trip`).

*Errors.*  Only the transfers of the run in question have to succeed.  What becomes of the memory
behind other failures is left open.
-/

namespace Smbusb

open Logic Prog Tool

namespace M37512

/-! ## Faithful chips -/

/-- What can be seen of a chip. -/
structure FlashView where
  mem : Mem Byte
  /-- The address that was set last. -/
  readAddress : Nat

/-- The number of cells. -/
def flashCells : Nat := 0x10000

/-- The address that two bytes stand for, the low one first. -/
def location (lo hi : Byte) : Nat := lo.toNat + 0x100 * hi.toNat

/-- There is a memory behind the answers of the chip: `view` says what it is after some calls. -/
structure FlashChip (chip : Chip) (view : List Call → FlashView) : Prop where
  stores : ∀ calls lo hi data, data.length = chunkLen → location lo hi + chunkLen ≤ flashCells →
    0 ≤ chip.status (calls ++ [.writeBlock cmdWriteBlock (lo :: hi :: data)]) →
    (view (calls ++ [.writeBlock cmdWriteBlock (lo :: hi :: data)])).mem =
      (view calls).mem.write (location lo hi) data
  sets : ∀ calls lo hi, 0 ≤ chip.status (calls ++ [.writeBlock cmdSetReadAddress [lo, hi]]) →
    view (calls ++ [.writeBlock cmdSetReadAddress [lo, hi]]) =
      ⟨(view calls).mem, location lo hi⟩
  reads : ∀ calls, (view calls).readAddress + chunkLen ≤ flashCells →
    0 ≤ (chip.block (calls ++ [.readBlock cmdReadBlock])).status →
    chip.block (calls ++ [.readBlock cmdReadBlock]) =
      .read ((view calls).mem.read (view calls).readAddress chunkLen)
  keepsBlock : ∀ calls, (view (calls ++ [.readBlock cmdReadBlock])).mem = (view calls).mem
  keepsStatus : ∀ calls,
    (view (calls ++ [.readByte cmdReadClearStatusRegister])).mem = (view calls).mem

/-- The address of a chunk, for an address that fits into 16 bits. -/
theorem chunkAddress_eq {address i : Nat} (h : address + i * chunkLen < flashCells) :
    ∃ lo hi, chunkAddress address i = [lo, hi] ∧ location lo hi = address + i * chunkLen := by
  refine ⟨_, _, rfl, ?_⟩
  have haddr : toUnsigned ((address : Int) + (i : Int) * (chunkLen : Int)) =
      BitVec.ofNat 32 (address + i * chunkLen) := by
    rw [toUnsigned, ← Int.natCast_mul, ← Int.natCast_add, BitVec.ofInt_natCast]
  rw [haddr, location, BitVec.toNat_setWidth, BitVec.toNat_setWidth, BitVec.toNat_ushiftRight,
    BitVec.toNat_ofNat, Nat.shiftRight_eq_div_pow]
  unfold flashCells at h
  omega

section

variable {chip : Chip} {view : List Call → FlashView} {arrays : Arrays} {before : List Call}
  {address : Nat}

/-! ## Writing -/

/-- The memory when `k` chunks were written. -/
theorem mem_writeBurst (hchip : FlashChip chip view) {buf : Mem Byte} {k : Nat}
    (hfits : address + k * chunkLen ≤ flashCells)
    (hpass : (writeBurst address buf).Passes chip before k) :
    (view (before ++ (writeBurst address buf).calls k)).mem =
      (view before).mem.write address (buf.read 0 (k * chunkLen)) := by
  induction k with
  | zero => rw [Burst.calls_zero, List.append_nil, Nat.zero_mul, Mem.read_zero, Mem.write_nil]
  | succ k ih =>
      rw [Nat.succ_mul] at hfits
      have hpos : 0 < chunkLen := by decide
      obtain ⟨lo, hi, hbytes, hlocation⟩ : ∃ lo hi, chunkAddress address k = [lo, hi] ∧
          location lo hi = address + k * chunkLen := chunkAddress_eq (by omega)
      have hcall : writeCall address k (buf.read (k * chunkLen) chunkLen) =
          .writeBlock cmdWriteBlock (lo :: hi :: buf.read (k * chunkLen) chunkLen) := by
        rw [writeCall, hbytes]
        rfl
      have hcalls : before ++ (writeBurst address buf).calls (k + 1) =
          before ++ (writeBurst address buf).calls k ++ [.readByte cmdReadClearStatusRegister] ++
            [.writeBlock cmdWriteBlock (lo :: hi :: buf.read (k * chunkLen) chunkLen)] := by
        rw [Burst.calls_succ, ← hcall]
        simp only [writeBurst, List.append_nil, List.append_assoc, List.cons_append,
          List.nil_append]
      have hstatus : 0 ≤ chip.status (before ++ (writeBurst address buf).calls (k + 1)) := by
        have hgoes := hpass k (Nat.lt_succ_self k)
        rw [Burst.Fails, Int.not_lt, List.append_assoc] at hgoes
        rwa [Burst.calls_succ, show (writeBurst address buf).rest k = [] from rfl, List.append_nil]
      rw [hcalls] at hstatus ⊢
      rw [hchip.stores _ _ _ _ (Mem.length_read ..) (by omega) hstatus, hchip.keepsStatus,
        ih (by omega) (hpass.mono (Nat.le_succ k)), hlocation, Mem.write_read_add, Nat.succ_mul]

/-! ## Reading -/

/-- No transfer of `readFlash` fails. -/
structure ReadsThrough (chip : Chip) (before : List Call) (address : Int) (n : Nat) : Prop where
  sets : (readBurst address).Passes chip before n
  reads : ∀ i < n, 0 ≤ (answer chip before address i).status

/-- The chip when the address of a chunk was set. -/
theorem view_setRead (hchip : FlashChip chip view) {calls : List Call} {k : Nat}
    (hfits : address + k * chunkLen < flashCells)
    (hstatus : 0 ≤ chip.status (calls ++ [setReadCall address k])) :
    view (calls ++ [setReadCall address k]) = ⟨(view calls).mem, address + k * chunkLen⟩ := by
  obtain ⟨lo, hi, hbytes, hlocation⟩ := chunkAddress_eq hfits
  rw [setReadCall, hbytes] at hstatus ⊢
  rw [hchip.sets _ _ _ hstatus, hlocation]

/-- The calls for one more chunk. -/
theorem readBurst_succ (address : Int) (before : List Call) (k : Nat) :
    before ++ (readBurst address).calls (k + 1) =
      before ++ (readBurst address).calls k ++ [setReadCall address k] ++
        [.readBlock cmdReadBlock] := by
  rw [Burst.calls_succ]
  simp only [readBurst, List.append_assoc]

/-- Reading leaves the memory as it is. -/
theorem mem_readBurst (hchip : FlashChip chip view) {k : Nat}
    (hfits : address + k * chunkLen ≤ flashCells)
    (hpass : (readBurst address).Passes chip before k) :
    (view (before ++ (readBurst address).calls k)).mem = (view before).mem := by
  induction k with
  | zero => rw [Burst.calls_zero, List.append_nil]
  | succ k ih =>
      rw [Nat.succ_mul] at hfits
      have hpos : 0 < chunkLen := by decide
      have hstatus := Int.not_lt.mp (hpass k (Nat.lt_succ_self k))
      rw [readBurst_succ, hchip.keepsBlock, view_setRead hchip (by omega) hstatus,
        ih (by omega) (hpass.mono (Nat.le_succ k))]

/-- A chunk is read from the memory. -/
theorem answer_eq (hchip : FlashChip chip view) {k : Nat}
    (hfits : address + (k + 1) * chunkLen ≤ flashCells)
    (hpass : (readBurst address).Passes chip before (k + 1))
    (hread : 0 ≤ (answer chip before address k).status) :
    answer chip before address k =
      .read ((view before).mem.read (address + k * chunkLen) chunkLen) := by
  rw [Nat.succ_mul] at hfits
  have hpos : 0 < chunkLen := by decide
  have hstatus := Int.not_lt.mp (hpass k (Nat.lt_succ_self k))
  have hview := view_setRead hchip (k := k) (by omega) hstatus
  rw [mem_readBurst hchip (by omega) (hpass.mono (Nat.le_succ k))] at hview
  rw [answer, readBurst_succ] at hread ⊢
  rw [hchip.reads _ (by rw [hview, Nat.add_assoc]; omega) hread, hview]

/-- What is copied for `k` chunks is the range of the memory. -/
theorem chunkData_eq (hchip : FlashChip chip view) {k : Nat}
    (hfits : address + k * chunkLen ≤ flashCells) (hreads : ReadsThrough chip before address k) :
    chunkData chip arrays before address k = (view before).mem.read address (k * chunkLen) := by
  induction k with
  | zero => rw [chunkData, Nat.zero_mul, Mem.read_zero, List.range_zero, List.flatMap_nil]
  | succ k ih =>
      have hchunk := answer_eq hchip hfits hreads.sets (hreads.reads k (Nat.lt_succ_self k))
      have hwhole : (chunkAfter chip arrays before address (k + 1)).read 0 chunkLen = _ :=
        chunk_of_gives (hchunk ▸ BlockAnswer.gives_read _) (Mem.length_read ..)
      rw [Nat.succ_mul] at hfits
      rw [chunkData_succ, hwhole, Nat.succ_mul, Mem.read_add, ih (by omega)
        ⟨hreads.sets.mono (Nat.le_succ k), fun i hi => hreads.reads i (Nat.lt_succ_of_lt hi)⟩]

/-! ## The round trip -/

/-- What `writeFlash` and a `readFlash` behind it make of a range. -/
structure FlashRoundTrip (chip : Chip) (view : List Call → FlashView) (address len : Nat)
    (buf : Mem Byte) (s s' : ToolState) : Prop where
  written : writeFlash chip address len buf s = .ok len s'
  changed : (view s'.sent).mem = (view s.sent).mem.write address (buf.read 0 len)
  readBack : ∀ arrays buf' off n, chunkLen ∣ n → off + n ≤ len →
    ReadsThrough chip s'.sent (address + off) (n / chunkLen) →
    ∃ buf'' s'', readFlash chip arrays (address + off) n buf' s' = .ok (n, buf'') s'' ∧
      buf''.read 0 n = buf.read off n

/-- A length that is not a multiple of 16 is refused, and nothing is sent. -/
structure FlashRefuses (chip : Chip) (address len : Int) (buf : Mem Byte) (s : ToolState) :
    Prop where
  write : writeFlash chip address len buf s = .ok (-99) s
  read : ∀ arrays, readFlash chip arrays address len buf s = .ok (-99, buf) s

variable (arrays address) in
theorem readFlash_eq (hchip : FlashChip chip view) {n : Nat} (buf : Mem Byte) {s : ToolState}
    (hdvd : chunkLen ∣ n) (hfits : address + n ≤ flashCells)
    (hreads : ReadsThrough chip s.sent address (n / chunkLen)) :
    ∃ s', readFlash chip arrays address n buf s =
      .ok (n, buf.write 0 ((view s.sent).mem.read address n)) s' := by
  have hmul : n / chunkLen * chunkLen = n := Nat.div_mul_cancel hdvd
  obtain ⟨buf', hrun, hbuf⟩ : ∃ buf', readFlash chip arrays address n buf s = _ ∧ _ :=
    readFlash_run (tmod_chunkLen hdvd)
  rw [chunkCount_natCast] at hrun hbuf
  rw [if_pos hreads.sets, hbuf hreads.sets, chunkData_eq hchip (by omega) hreads, hmul] at hrun
  exact ⟨_, hrun⟩

end

/-- A faithful chip has what was written, and gives it back. -/
theorem flash_round_trip {chip : Chip} {view : List Call → FlashView}
    (hchip : FlashChip chip view) (s : ToolState) (buf : Mem Byte) :
    (∀ address len : Nat, chunkLen ∣ len → address + len ≤ flashCells →
      (writeBurst address buf).Passes chip s.sent (len / chunkLen) →
      ∃ s', FlashRoundTrip chip view address len buf s s') ∧
    ∀ address len : Int, ¬ (chunkLen : Int) ∣ len → FlashRefuses chip address len buf s := by
  refine ⟨fun address len hdvd hfits hpass => ?_, fun address len hdvd => ?_⟩
  · have hmul : len / chunkLen * chunkLen = len := Nat.div_mul_cancel hdvd
    have hrun : wp (writeFlash chip address len buf) (fun r s' => r = len ∧
        s' = { s with sent := s.sent ++ (writeBurst address buf).calls (len / chunkLen) })
        (fun _ _ => False) s := by
      refine wp_writeFlash (tmod_chunkLen hdvd) (fun h => ?_) fun h => ?_
      · rw [chunkCount_natCast, Burst.sent_of_passes hpass]
        exact ⟨rfl, rfl⟩
      · rw [chunkCount_natCast] at h
        exact absurd hpass h
    obtain ⟨_, _, hrun, rfl, rfl⟩ := exists_run_of_wp hrun
    have hchanged := mem_writeBurst hchip (k := len / chunkLen) (by omega) hpass
    rw [hmul] at hchanged
    refine ⟨_, hrun, hchanged, fun arrays buf' off n hn hin hreads => ?_⟩
    obtain ⟨s'', hread⟩ := readFlash_eq arrays (address + off) hchip buf' hn (by omega) hreads
    have hback := Mem.read_write buf' 0
      ((view (s.sent ++ (writeBurst address buf).calls (len / chunkLen))).mem.read
        (address + off) n)
    rw [Mem.length_read] at hback
    refine ⟨_, s'', hread, ?_⟩
    rw [hback, hchanged, Mem.read_write_part _ _ (by rw [Mem.length_read]; exact hin),
      Mem.drop_read, Mem.take_read, Nat.zero_add, Nat.min_eq_left (by omega)]
  · have hmod : len.tmod chunkLen ≠ 0 := fun h => hdvd (Int.dvd_of_tmod_eq_zero h)
    exact ⟨writeFlash_unaligned hmod buf s, fun arrays => readFlash_unaligned hmod buf s⟩

/-! ## A faithful chip -/

/-- What a call changes. -/
def FlashView.step (v : FlashView) : Call → FlashView
  | .writeBlock command (lo :: hi :: data) =>
      if command = cmdWriteBlock then { v with mem := v.mem.write (location lo hi) data }
      else if command = cmdSetReadAddress then { v with readAddress := location lo hi }
      else v
  | _ => v

/-- The chip whose flash is empty at first, and whose transfers all succeed. -/
def emptyFlash : List Call → FlashView := List.foldl FlashView.step ⟨fun _ => 0xFF, 0⟩

def emptyChip : Chip where
  status _ := 0
  errno _ := 0
  block calls :=
    let v := emptyFlash calls.dropLast
    .read (v.mem.read v.readAddress chunkLen)
  received _ := []

theorem emptyFlash_append (calls : List Call) (c : Call) :
    emptyFlash (calls ++ [c]) = (emptyFlash calls).step c := by
  rw [emptyFlash, List.foldl_append, List.foldl_cons, List.foldl_nil]

theorem flashChip_emptyChip : FlashChip emptyChip emptyFlash where
  stores calls lo hi data _ _ _ := by
    rw [emptyFlash_append]
    rfl
  sets calls lo hi _ := by
    rw [emptyFlash_append]
    rfl
  reads calls _ _ := by
    simp only [emptyChip, List.dropLast_concat]
  keepsBlock calls := by
    rw [emptyFlash_append]
    rfl
  keepsStatus calls := by
    rw [emptyFlash_append]
    rfl

/-- 32 bytes are written behind the address 0xF8, where the high byte changes. -/
theorem flash_round_trip_carry :
    (∃ s', FlashRoundTrip emptyChip emptyFlash 0xF8 32 (BitVec.ofNat 8) .init s') ∧
      FlashRefuses emptyChip 0xF8 31 (BitVec.ofNat 8) .init := by
  obtain ⟨hwrites, hrefuses⟩ := flash_round_trip flashChip_emptyChip .init (BitVec.ofNat 8)
  refine ⟨hwrites 0xF8 32 (by decide) (by decide) fun i _ => ?_, hrefuses 0xF8 31 (by decide)⟩
  exact Int.not_lt.mpr (Int.le_refl 0)

end M37512

end Smbusb
