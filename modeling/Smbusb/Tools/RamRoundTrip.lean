import Smbusb.Tools.RamTransfers

/-!
# Writing the RAM of an R2J240 and reading it back

A chip is faithful (`RamChip`) when there is a memory behind its answers: the bytes of a message are
stored at the 24-bit address in it, and so many bytes as a message asks for are read from there.
For such a chip `writeRam` changes the range it is asked to, up to the piece that fails if one does,
and nothing else, and `readRam` returns what the memory holds (`ram_round_trip`).
-/

namespace Smbusb

open Logic Prog Tool

namespace R2j240

/-! ## Faithful chips -/

/-- The number of cells. -/
def ramCells : Nat := 2 ^ 24

/-- The address that three bytes stand for, the low one first. -/
def ramLocation (a b c : Byte) : Nat := a.toNat + 0x100 * b.toNat + 0x10000 * c.toNat

/-- The length that two bytes stand for, the low one first. -/
def messageLength (low high : Byte) : Nat := low.toNat + 0x100 * high.toNat

/-- There is a memory behind the answers of the chip: `ram` says what it is after some calls. -/
structure RamChip (chip : Chip) (ram : List Call → Mem Byte) : Prop where
  stores : ∀ calls a b c low high data, messageLength low high = data.length →
    ramLocation a b c + data.length ≤ ramCells →
    0 ≤ chip.status
      (calls ++ [.transfer (cmdWriteRam :: a :: b :: c :: low :: high :: data) none]) →
    ram (calls ++ [.transfer (cmdWriteRam :: a :: b :: c :: low :: high :: data) none]) =
      (ram calls).write (ramLocation a b c) data
  /-- A write that fails stores nothing. -/
  refuses : ∀ calls data,
    chip.status (calls ++ [.transfer (cmdWriteRam :: data) none]) < 0 →
    ram (calls ++ [.transfer (cmdWriteRam :: data) none]) = ram calls
  reads : ∀ calls a b c low high, ramLocation a b c + messageLength low high ≤ ramCells →
    0 ≤ chip.status
      (calls ++ [.transfer [cmdReadRam, a, b, c, low, high] (some (messageLength low high))]) →
    chip.received
        (calls ++ [.transfer [cmdReadRam, a, b, c, low, high] (some (messageLength low high))]) =
      (ram calls).read (ramLocation a b c) (messageLength low high)
  keeps : ∀ calls a b c low high, 0 ≤ chip.status
      (calls ++ [.transfer [cmdReadRam, a, b, c, low, high] (some (messageLength low high))]) →
    ram (calls ++ [.transfer [cmdReadRam, a, b, c, low, high] (some (messageLength low high))]) =
      ram calls

/-! ## Addresses and lengths -/

theorem addressBytes_eq (addr : UInt) (h : addr.toNat < ramCells) :
    ∃ a b c, addressBytes addr = [a, b, c] ∧ ramLocation a b c = addr.toNat := by
  refine ⟨_, _, _, rfl, ?_⟩
  rw [ramLocation, BitVec.toNat_setWidth, BitVec.toNat_setWidth, BitVec.toNat_setWidth,
    BitVec.toNat_ushiftRight, BitVec.toNat_ushiftRight, Nat.shiftRight_eq_div_pow,
    Nat.shiftRight_eq_div_pow]
  unfold ramCells at h
  omega

theorem lengthBytes_eq {cur : Nat} (h : cur < 0x10000) :
    ∃ low high, lengthBytes cur = [low, high] ∧ messageLength low high = cur := by
  refine ⟨_, _, rfl, ?_⟩
  rw [messageLength, BitVec.toNat_ofNat, BitVec.toNat_ofNat, Nat.shiftRight_eq_div_pow]
  omega

section

variable {chip : Chip} {ram : List Call → Mem Byte} {before : List Call} {address size : UInt}
  {buf : Mem Byte}

theorem pieceAddress_toNat (c : Nat) (hfits : address.toNat + size.toNat ≤ ramCells) (i : Nat) :
    (pieceAddress c address size i).toNat = address.toNat + covered c size.toNat i := by
  have hle := covered_le c size.toNat i
  unfold ramCells at hfits
  rw [pieceAddress, BitVec.toNat_add, BitVec.toNat_ofNat]
  omega

variable (address) in
/-- The message for a piece: its address, and its length. -/
theorem piece_bytes {c i : Nat} (hc : 0 < c) (hbyte : c < 0x10000)
    (hfits : address.toNat + size.toNat ≤ ramCells) (hi : i < pieceCount c size.toNat) :
    ∃ x y z low high, addressBytes (pieceAddress c address size i) = [x, y, z] ∧
      ramLocation x y z = address.toNat + covered c size.toNat i ∧
      lengthBytes (pieceLen c size.toNat i) = [low, high] ∧
      messageLength low high = pieceLen c size.toNat i := by
  have hpos := pieceLen_pos hc hi
  have hinside := piece_inside c size.toNat i
  have haddr := pieceAddress_toNat c hfits i
  obtain ⟨x, y, z, hbytes, hlocation⟩ := addressBytes_eq (pieceAddress c address size i) (by omega)
  obtain ⟨low, high, hlength, hmessage⟩ :=
    lengthBytes_eq (Nat.lt_of_le_of_lt (pieceLen_le c size.toNat i) hbyte)
  exact ⟨x, y, z, low, high, hbytes, hlocation.trans haddr, hlength, hmessage⟩

/-! ## Writing -/

/-- A piece is stored. -/
theorem ram_write (hchip : RamChip chip ram) {calls : List Call} {i : Nat}
    (hfits : address.toNat + size.toNat ≤ ramCells) (hi : i < writeCount size)
    (hstatus : 0 ≤ chip.status (calls ++ (writeBurst address size buf).test i)) :
    ram (calls ++ (writeBurst address size buf).test i) =
      (ram calls).write (address.toNat + covered writeLen size.toNat i)
        (buf.read (covered writeLen size.toNat i) (pieceLen writeLen size.toNat i)) := by
  obtain ⟨x, y, z, low, high, hbytes, hlocation, hlength, hmessage⟩ :=
    piece_bytes address writeLen_pos (by decide) hfits hi
  have hinside := piece_inside writeLen size.toNat i
  have htest : (writeBurst address size buf).test i =
      [.transfer (cmdWriteRam :: x :: y :: z :: low :: high ::
        buf.read (covered writeLen size.toNat i) (pieceLen writeLen size.toNat i)) none] := by
    simp only [writeBurst, writeRamCall, Mem.length_read, hbytes, hlength, List.cons_append,
      List.nil_append]
  rw [htest] at hstatus ⊢
  rw [hchip.stores _ _ _ _ _ _ _ (by rw [hmessage, Mem.length_read])
    (by rw [hlocation, Mem.length_read]; omega) hstatus, hlocation]

/-- A piece is refused. -/
theorem ram_refused (hchip : RamChip chip ram) {calls : List Call} {i : Nat}
    (hstatus : chip.status (calls ++ (writeBurst address size buf).test i) < 0) :
    ram (calls ++ (writeBurst address size buf).test i) = ram calls :=
  hchip.refuses _ _ hstatus

/-- The memory when `k` pieces were written. -/
theorem ram_writeBurst (hchip : RamChip chip ram) {k : Nat}
    (hfits : address.toNat + size.toNat ≤ ramCells) (hk : k ≤ writeCount size)
    (hpass : (writeBurst address size buf).Passes chip before k) :
    ram (before ++ (writeBurst address size buf).calls k) =
      (ram before).write address.toNat (buf.read 0 (covered writeLen size.toNat k)) := by
  induction k with
  | zero => rw [Burst.calls_zero, List.append_nil, covered_zero, Mem.read_zero, Mem.write_nil]
  | succ k ih =>
      have hstatus := Int.not_lt.mp (hpass k (Nat.lt_succ_self k))
      rw [writeBurst_succ, ← List.append_assoc]
      rw [show [writeRamCall (pieceAddress writeLen address size k)
        (buf.read (covered writeLen size.toNat k) (pieceLen writeLen size.toNat k))] =
          (writeBurst address size buf).test k from rfl,
        ram_write hchip hfits hk hstatus, ih (Nat.le_of_succ_le hk) (hpass.mono (Nat.le_succ k)),
        Mem.write_read_add, covered_succ]

/-! ## Reading -/

/-- A piece is read. -/
theorem ram_read (hchip : RamChip chip ram) {calls : List Call} {i : Nat}
    (hfits : address.toNat + size.toNat ≤ ramCells) (hi : i < readCount size)
    (hstatus : 0 ≤ chip.status (calls ++ (readBurst address size).test i)) :
    ram (calls ++ (readBurst address size).test i) = ram calls ∧
      chip.received (calls ++ (readBurst address size).test i) =
        (ram calls).read (address.toNat + covered readLen size.toNat i)
          (pieceLen readLen size.toNat i) := by
  obtain ⟨x, y, z, low, high, hbytes, hlocation, hlength, hmessage⟩ :=
    piece_bytes address readLen_pos (by decide) hfits hi
  have hinside := piece_inside readLen size.toNat i
  have htest : (readBurst address size).test i =
      [.transfer [cmdReadRam, x, y, z, low, high] (some (messageLength low high))] := by
    simp only [readBurst, readRamCall, hbytes, hlength, hmessage, List.cons_append,
      List.nil_append]
  rw [htest] at hstatus ⊢
  refine ⟨hchip.keeps _ _ _ _ _ _ hstatus, ?_⟩
  rw [hchip.reads _ _ _ _ _ _ (by rw [hlocation, hmessage]; omega) hstatus, hlocation, hmessage]

/-- The bytes that are received are those that are stored. -/
theorem receive_read {sent : List Call} {m : Mem Byte} {off cur : Nat}
    (h : chip.received sent = m.read off cur) : receive chip sent cur = m.read off cur := by
  refine List.map_congr_left fun i hi => ?_
  rw [h, List.getD_eq_getElem?_getD, Mem.getElem?_read m (List.mem_range.mp hi), Option.getD_some]

/-- Reading leaves the memory as it is, and `k` pieces of it are what was read. -/
theorem ram_readBurst (hchip : RamChip chip ram) {k : Nat}
    (hfits : address.toNat + size.toNat ≤ ramCells) (hk : k ≤ readCount size)
    (hpass : (readBurst address size).Passes chip before k) :
    ram (before ++ (readBurst address size).calls k) = ram before ∧
      readData chip before address size k =
        (ram before).read address.toNat (covered readLen size.toNat k) := by
  induction k with
  | zero =>
      refine ⟨by rw [Burst.calls_zero, List.append_nil], ?_⟩
      rw [readData, List.range_zero, List.flatMap_nil, covered_zero, Mem.read_zero]
  | succ k ih =>
      have hstatus := Int.not_lt.mp (hpass k (Nat.lt_succ_self k))
      obtain ⟨hsame, hdata⟩ := ih (Nat.le_of_succ_le hk) (hpass.mono (Nat.le_succ k))
      obtain ⟨hkeeps, hreceived⟩ := ram_read hchip hfits hk hstatus
      have hcalls : before ++ (readBurst address size).calls (k + 1) =
          before ++ (readBurst address size).calls k ++ (readBurst address size).test k := by
        rw [readBurst_succ, ← List.append_assoc]
        rfl
      rw [hsame] at hkeeps hreceived
      rw [readData_succ, hcalls]
      refine ⟨hkeeps, ?_⟩
      rw [receive_read hreceived, hdata, ← Mem.read_add, covered_succ]

/-! ## The round trip -/

/-- What `writeRam` makes of a range. -/
structure RamWritten (chip : Chip) (ram : List Call → Mem Byte) (address size : UInt)
    (buf : Mem Byte) (s : ToolState) : Prop where
  /-- No transfer fails. -/
  written : (writeBurst address size buf).Passes chip s.sent (writeCount size) →
    ∃ s', writeRam chip address size buf s = .ok size.toNat s' ∧
      ram s'.sent = (ram s.sent).write address.toNat (buf.read 0 size.toNat)
  /-- The transfer behind the first `k` is the first that fails. -/
  failed : ∀ k < writeCount size, (writeBurst address size buf).Fails chip s.sent k →
    (writeBurst address size buf).Passes chip s.sent k →
    ∃ s', writeRam chip address size buf s = .ok (-1) s' ∧
      ram s'.sent = (ram s.sent).write address.toNat (buf.read 0 (writeLen * k))

/-- What `readRam` makes of a range. -/
structure RamRead (chip : Chip) (ram : List Call → Mem Byte) (address size : UInt)
    (buf : Mem Byte) (s : ToolState) : Prop where
  read : (readBurst address size).Passes chip s.sent (readCount size) →
    ∃ buf' s', readRam chip address size buf s = .ok (size.toNat, buf') s' ∧
      buf'.read 0 size.toNat = (ram s.sent).read address.toNat size.toNat ∧
      ram s'.sent = ram s.sent
  failed : ∀ k < readCount size, (readBurst address size).Fails chip s.sent k →
    ∃ buf' s', readRam chip address size buf s = .ok (-1, buf') s'

theorem toInt_of_fits (hfits : address.toNat + size.toNat ≤ ramCells) :
    size.toInt = size.toNat := by
  unfold ramCells at hfits
  exact BitVec.toInt_eq_toNat_of_lt (by omega)

theorem ramWritten (hchip : RamChip chip ram) (hfits : address.toNat + size.toNat ≤ ramCells)
    (buf : Mem Byte) (s : ToolState) : RamWritten chip ram address size buf s := by
  have hrun : wp (writeRam chip address size buf) (fun r s' =>
      r = (if (writeBurst address size buf).Passes chip s.sent (writeCount size) then
        (size.toNat : Int) else -1) ∧ s'.sent = s.sent ++
          (writeBurst address size buf).sent chip s.sent (writeCount size))
      (fun _ _ => False) s := by
    refine wp_writeRam (fun hpass => ?_) fun hfail => ?_
    · exact ⟨by rw [if_pos hpass, toInt_of_fits hfits], rfl⟩
    · exact ⟨(if_neg hfail).symm, rfl⟩
  obtain ⟨_, s', hrun, rfl, hsent⟩ := exists_run_of_wp hrun
  refine ⟨fun hpass => ⟨s', ?_, ?_⟩, fun k hk hfails hpass => ⟨s', ?_, ?_⟩⟩
  · rw [hrun, if_pos hpass]
  · rw [hsent, Burst.sent_of_passes hpass, ram_writeBurst hchip hfits (Nat.le_refl _) hpass,
      writeCount, covered_pieceCount writeLen_pos]
  · rw [hrun, if_neg fun h => h k hk hfails]
  · rw [hsent, Burst.sent_of_fails hk hfails hpass, ← List.append_assoc,
      ram_refused hchip hfails, ram_writeBurst hchip hfits (Nat.le_of_lt hk) hpass,
      covered_of_lt writeLen_pos hk]

theorem ramRead (hchip : RamChip chip ram) (hfits : address.toNat + size.toNat ≤ ramCells)
    (buf : Mem Byte) (s : ToolState) : RamRead chip ram address size buf s := by
  have hrun : wp (readRam chip address size buf) (fun r s' =>
      r.1 = (if (readBurst address size).Passes chip s.sent (readCount size) then
        (size.toNat : Int) else -1) ∧
      ((readBurst address size).Passes chip s.sent (readCount size) →
        r.2 = buf.write 0 (readData chip s.sent address size (readCount size)) ∧
        s'.sent = s.sent ++ (readBurst address size).calls (readCount size)))
      (fun _ _ => False) s := by
    refine wp_readRam (fun hpass => ⟨?_, fun _ => ⟨rfl, ?_⟩⟩) fun hfail buf' => ?_
    · rw [if_pos hpass, toInt_of_fits hfits]
    · rw [Burst.sent_of_passes hpass]
    · exact ⟨(if_neg hfail).symm, fun hpass => absurd hpass hfail⟩
  obtain ⟨⟨r, buf'⟩, s', hrun, hr, hread⟩ := exists_run_of_wp hrun
  dsimp only at hr hread
  subst hr
  refine ⟨fun hpass => ⟨buf', s', ?_, ?_, ?_⟩, fun k hk hfails => ⟨buf', s', ?_⟩⟩
  · rw [hrun, if_pos hpass]
  · obtain ⟨-, hdata⟩ := ram_readBurst hchip hfits (Nat.le_refl _) hpass
    rw [readCount, covered_pieceCount readLen_pos, ← readCount] at hdata
    have hback := Mem.read_write buf 0 ((ram s.sent).read address.toNat size.toNat)
    rw [Mem.length_read] at hback
    rw [(hread hpass).1, hdata, hback]
  · rw [(hread hpass).2, (ram_readBurst hchip hfits (Nat.le_refl _) hpass).1]
  · rw [hrun, if_neg fun h => h k hk hfails]

end

/-- A faithful chip has what was written, and every range is read as the memory is by then. -/
theorem ram_round_trip {chip : Chip} {ram : List Call → Mem Byte} (hchip : RamChip chip ram)
    (address size : UInt) (hfits : address.toNat + size.toNat ≤ ramCells) (buf : Mem Byte)
    (s : ToolState) : RamWritten chip ram address size buf s ∧
      ∀ b m : UInt, b.toNat + m.toNat ≤ ramCells → ∀ buf' s', RamRead chip ram b m buf' s' :=
  ⟨ramWritten hchip hfits buf s, fun _ _ hinside buf' s' => ramRead hchip hinside buf' s'⟩

/-! ## A faithful chip -/

/-- What a call changes. -/
def ramStep (m : Mem Byte) : Call → Mem Byte
  | .transfer (command :: a :: b :: c :: _ :: _ :: data) none =>
      if command = cmdWriteRam then m.write (ramLocation a b c) data else m
  | _ => m

/-- What a call reads. -/
def ramReply (m : Mem Byte) : Call → List Byte
  | .transfer [_, a, b, c, _, _] (some n) => m.read (ramLocation a b c) n
  | _ => []

/-- The chip whose RAM is cleared at first, and whose transfers all succeed. -/
def clearedRam : List Call → Mem Byte := List.foldl ramStep fun _ => 0

def clearedChip : Chip where
  status _ := 0
  errno _ := 0
  block _ := .failed 0
  received calls := (calls.getLast?.map (ramReply (clearedRam calls.dropLast))).getD []

theorem clearedRam_append (calls : List Call) (c : Call) :
    clearedRam (calls ++ [c]) = ramStep (clearedRam calls) c := by
  rw [clearedRam, List.foldl_append, List.foldl_cons, List.foldl_nil]

theorem ramChip_clearedChip : RamChip clearedChip clearedRam where
  stores calls a b c low high data _ _ _ := by
    rw [clearedRam_append]
    rfl
  refuses calls data h := absurd h (Int.lt_irrefl 0)
  reads calls a b c low high _ _ := by
    simp only [clearedChip, List.getLast?_concat, List.dropLast_concat, Option.map_some,
      Option.getD_some]
    rfl
  keeps calls a b c low high _ := by
    rw [clearedRam_append]
    rfl

/-- 100 bytes are written over a carry of the address, and 70 of them are read back. -/
theorem ram_round_trip_carry :
    ∃ s', writeRam clearedChip 0xFFF0 100 (BitVec.ofNat 8) .init = .ok 100 s' ∧
      ∃ buf s'', readRam clearedChip 0xFFF4 70 (fun _ => 0) s' = .ok (70, buf) s'' ∧
        buf.read 0 70 = Mem.read (BitVec.ofNat 8) 4 70 := by
  obtain ⟨hwritten, hread⟩ := ram_round_trip ramChip_clearedChip 0xFFF0 100 (by decide)
    (BitVec.ofNat 8) .init
  obtain ⟨s', hwrite, hram⟩ := hwritten.written fun _ _ => Int.lt_irrefl 0
  obtain ⟨buf, s'', hrun, hback, -⟩ :=
    (hread 0xFFF4 70 (by decide) (fun _ => 0) s').read fun _ _ => Int.lt_irrefl 0
  refine ⟨s', hwrite, buf, s'', hrun, hback.trans ?_⟩
  have hpart := Mem.read_write_part (clearedRam ToolState.init.sent) 0xFFF0 (i := 4) (n := 70)
    (l := Mem.read (BitVec.ofNat 8) 0 100) (by decide)
  rw [Mem.drop_read, Mem.take_read] at hpart
  rw [hram]
  exact hpart

end R2j240

end Smbusb
