import Smbusb.Host.UploadRecords

/-!
# The device behind an upload

What an upload does to the memory of the device and to its processor.

*The device.*  A transfer stores as many of its bytes as its status says, and one that fails may
have stored any number of them.  `CPUCS` is at 0xE600, and while its bit 0 is set the processor is
held (`Held`).

*Any file.*  The first transfer holds the processor, and the last one lets it go if there was no
failure.  Between them there are only lines of the file.  So whatever the file and whatever becomes
of the transfers, the processor never runs what is half written, unless it could not be held or a
line writes to `CPUCS` itself (`upload_holds`).

*Records.*  A memory image is a list of data records, and `ihxText` is a file for it.  The upload of
this file leaves the image in the memory and the processor running (`upload_round_trip`).
-/

namespace Smbusb

open Logic Prog

/-! ## The device -/

/-- The memory behind a transfer of all its bytes.  An address has 16 bits. -/
def Transfer.store (m : Mem Byte) (t : Transfer) : Mem Byte := m.write t.setup.value.toNat t.write.2

/-- The processor is held. -/
def Held (m : Mem Byte) : Prop := (m 0xE600).getLsbD 0 = true

/-- The transfer is for a line of the file. -/
def Transfer.isRam : Transfer → Bool
  | reset _ => false
  | ram _ _ _ => true

/-- The transfer is not for a line, or the line leaves `CPUCS` alone. -/
def Transfer.SparesReset (t : Transfer) : Prop :=
  t.isRam → 0xE600 < t.setup.value.toNat ∨ t.setup.value.toNat + t.write.2.length ≤ 0xE600

section

variable (dev : Loader) (torn : List Transfer → Nat)

/-- What the device stores of `t`, the last of the transfers: as much as the status says, and as
much as `torn` says if it fails. -/
def storedBytes (sent : List Transfer) (t : Transfer) : List Byte :=
  let status := dev (sent.map Transfer.write)
  t.write.2.take (if 0 ≤ status then status.toNat else torn sent)

/-- The memory behind the transfers that follow `before`. -/
def memoryFrom : List Transfer → Mem Byte → List Transfer → Mem Byte
  | _, m, [] => m
  | before, m, t :: ts => memoryFrom (before ++ [t])
      (m.write t.setup.value.toNat (storedBytes dev torn (before ++ [t]) t)) ts

/-- The memory behind the transfers of an upload. -/
def memoryAfter (m : Mem Byte) (sent : List Transfer) : Mem Byte := memoryFrom dev torn [] m sent

/-- Every transfer moves all its bytes. -/
def MovesAll (ts : List Transfer) : Prop :=
  ∀ k (hk : k < ts.length), ts[k].write.2.length ≤ statusAt dev ts k

instance (ts : List Transfer) : Decidable (MovesAll dev ts) :=
  inferInstanceAs (Decidable (∀ k (hk : k < ts.length), ts[k].write.2.length ≤ statusAt dev ts k))

variable {dev torn} {before : List Transfer}

theorem MovesAll.succeeds {ts : List Transfer} (h : MovesAll dev ts) :
    ∀ k < ts.length, 0 ≤ statusAt dev ts k :=
  fun k hk => (Int.natCast_nonneg _).trans (h k hk)

theorem length_storedBytes_le (sent : List Transfer) (t : Transfer) :
    (storedBytes dev torn sent t).length ≤ t.write.2.length :=
  List.length_take_le' _ _

/-- A transfer of all its bytes. -/
theorem storedBytes_of_all {sent : List Transfer} {t : Transfer}
    (h : t.write.2.length ≤ dev (sent.map Transfer.write)) :
    storedBytes dev torn sent t = t.write.2 := by
  have hsucceeds : 0 ≤ dev (sent.map Transfer.write) := (Int.natCast_nonneg _).trans h
  rw [storedBytes, if_pos hsucceeds, List.take_of_length_le (Int.le_toNat hsucceeds |>.mpr h)]

theorem store_reset (m : Mem Byte) (suspended : Byte) :
    Transfer.store m (.reset suspended) 0xE600 = suspended :=
  Mem.write_cons_self m 0xE600 suspended []

/-- Lines that leave `CPUCS` alone. -/
theorem memoryFrom_spared {ts : List Transfer} (hram : ∀ t ∈ ts, t.isRam)
    (hspares : ∀ t ∈ ts, t.SparesReset) (m : Mem Byte) :
    memoryFrom dev torn before m ts 0xE600 = m 0xE600 := by
  induction ts generalizing before m with
  | nil => rfl
  | cons t ts ih =>
      refine (ih (fun t ht => hram t (List.mem_cons_of_mem _ ht))
        (fun t ht => hspares t (List.mem_cons_of_mem _ ht)) _).trans ?_
      have hlen : (storedBytes dev torn (before ++ [t]) t).length ≤ t.write.2.length :=
        length_storedBytes_le _ t
      rcases hspares t (List.mem_cons_self ..) (hram t (List.mem_cons_self ..)) with hlt | hge
      · exact Mem.write_of_lt m _ hlt
      · exact Mem.write_of_ge m ((Nat.add_le_add_left hlen _).trans hge)

/-- Transfers of all their bytes are stored. -/
theorem memoryFrom_of_all {ts : List Transfer}
    (h : ∀ k (hk : k < ts.length),
      ts[k].write.2.length ≤ dev ((before ++ ts.take (k + 1)).map Transfer.write)) (m : Mem Byte) :
    memoryFrom dev torn before m ts = ts.foldl Transfer.store m := by
  induction ts generalizing before m with
  | nil => rfl
  | cons t ts ih =>
      have hfirst : t.write.2.length ≤ dev ((before ++ [t]).map Transfer.write) :=
        h 0 (Nat.succ_pos _)
      rw [memoryFrom, storedBytes_of_all hfirst, List.foldl_cons, Transfer.store]
      refine ih (fun k hk => ?_) _
      have hnext := h (k + 1) (Nat.succ_lt_succ hk)
      rwa [List.take_succ_cons, List.append_cons] at hnext

theorem MovesAll.stores {ts : List Transfer} (h : MovesAll dev ts) (m : Mem Byte) :
    memoryAfter dev torn m ts = ts.foldl Transfer.store m := by
  rw [memoryAfter]
  exact memoryFrom_of_all (fun k hk => h k hk) m

end

/-! ## Any file -/

/-- What is sent is a beginning of the list. -/
theorem Uploads.sent_isPrefix {dev : Loader} {ts : List Transfer} {r : Int × List Transfer}
    (h : Uploads dev ts r) : r.2 <+: ts ∧
      (r.1 = 1 ↔ ∀ k < ts.length, 0 ≤ statusAt dev ts k) := by
  by_cases hall : ∀ k < ts.length, 0 ≤ statusAt dev ts k
  · rw [h.all hall]
    exact ⟨List.prefix_refl ts, iff_of_true rfl hall⟩
  · obtain ⟨k, ⟨hk, hfails⟩, hbefore⟩ : ∃ k, (k < ts.length ∧ statusAt dev ts k < 0) ∧
        ∀ j < k, ¬ (j < ts.length ∧ statusAt dev ts j < 0) := by
      simp only [not_forall, Int.not_le] at hall
      obtain ⟨k, hk, hfails⟩ := hall
      have hex : ∃ k, k < ts.length ∧ statusAt dev ts k < 0 := ⟨k, hk, hfails⟩
      exact ⟨Nat.find hex, Nat.find_spec hex, fun _ hj => Nat.find_min hex hj⟩
    rw [h.first k hk (fun j hj => Int.not_lt.mp fun hneg =>
      hbefore j hj ⟨Nat.lt_trans hj hk, hneg⟩) hfails]
    refine ⟨List.take_prefix _ ts, iff_of_false (fun hone => ?_) hall⟩
    dsimp only at hone
    omega

/-- The lines of a file give writes to the RAM. -/
theorem isRam_lineTransfers (junk : Nat → Junk) (ls : List (Nat × List Char)) (v : HexVars) :
    ∀ t ∈ lineTransfers junk ls v, t.isRam := by
  induction ls generalizing v with
  | nil => exact fun t ht => absurd ht List.not_mem_nil
  | cons l ls ih =>
      rw [lineTransfers]
      split
      · exact fun t ht => absurd ht List.not_mem_nil
      · generalize parseHexLine l.2 l.1 (junk l.1) v = r
        obtain ⟨accepted, v'⟩ := r
        dsimp only
        split
        · rw [List.forall_mem_cons]
          exact ⟨rfl, ih v'⟩
        · exact ih v'

section

variable {dev : Loader} (torn : List Transfer → Nat) (junk : Nat → Junk)

/-- The processor is held from the first transfer on, until it is let go. -/
theorem held_of_prefix {rams pre : List Transfer} (hrams : ∀ t ∈ rams, t.isRam)
    (hpre : pre <+: [.reset 1] ++ rams ++ [.reset 0]) (hne : pre ≠ []) (hgo : .reset 0 ∉ pre)
    (hspares : ∀ t ∈ pre, t.SparesReset) (hheld : 1 ≤ dev [(Transfer.reset 1).write])
    (m : Mem Byte) : Held (memoryAfter dev torn m pre) := by
  have hbegun : pre <+: .reset 1 :: rams := by
    rcases List.prefix_concat_iff.mp hpre with rfl | h
    · exact absurd (List.mem_append_right _ (List.mem_singleton_self _)) hgo
    · exact h
  rw [List.prefix_cons_iff] at hbegun
  obtain rfl | ⟨ts, rfl, hts⟩ := hbegun
  · exact absurd rfl hne
  have hfirst : memoryAfter dev torn m (.reset 1 :: ts) =
      memoryFrom dev torn [.reset 1] (Transfer.store m (.reset 1)) ts := by
    have hstored : storedBytes dev torn [.reset 1] (.reset 1) = (Transfer.reset 1).write.2 :=
      storedBytes_of_all hheld
    rw [memoryAfter, memoryFrom, List.nil_append, hstored, Transfer.store]
  rw [Held, hfirst, memoryFrom_spared (fun t ht => hrams t (hts.subset ht))
    (fun t ht => hspares t (List.mem_cons_of_mem _ ht)), store_reset]
  rfl

variable (dev) in
/-- Whatever the file, and whatever becomes of its transfers: the upload holds the processor,
writes the lines in their order, lets the processor go if nothing has failed, and returns 1 if that
has not failed either.  So the processor, once it is held, never runs what is half written, and it
is not started again behind a failure. -/
theorem upload_holds (buf behind : List Char) (v : HexVars) :
    let ts := fileTransfers junk buf behind v
    let r := cypressUploadIhxFirmware dev junk buf behind v
    Uploads dev ts r ∧ (r.1 = 1 ↔ ∀ k < ts.length, 0 ≤ statusAt dev ts k) ∧
      (1 ≤ dev [(Transfer.reset 1).write] → (∀ t ∈ r.2, t.SparesReset) →
        ∀ (m : Mem Byte) (pre : List Transfer), pre <+: r.2 → pre ≠ [] → .reset 0 ∉ pre →
          Held (memoryAfter dev torn m pre)) := by
  intro ts r
  have huploads : Uploads dev ts r := upload_uploads junk buf behind v
  obtain ⟨hsent, hone⟩ := huploads.sent_isPrefix
  refine ⟨huploads, hone, fun hheld hspares m pre hpre hne hgo => ?_⟩
  exact held_of_prefix torn (isRam_lineTransfers junk _ v) (hpre.trans hsent) hne hgo
    (fun t ht => hspares t (hpre.subset ht)) hheld m

/-- The write of a record fails, behind its first byte. -/
theorem upload_holds_record :
    let dev : Loader := fun sent => if sent.length = 2 then -7 else 1
    let r := cypressUploadIhxFirmware dev (fun _ => ⟨0, 0⟩) (oneRecord 'B' 'D') [] .zero
    r = (-7, [.reset 1, .ram true 0 [0x42]]) ∧
      Held (memoryAfter dev (fun _ => 1) (fun _ => 0) r.2) := by
  intro dev r
  have hrun : r = (-7, [.reset 1, .ram true 0 [0x42]]) := by decide +kernel
  obtain ⟨-, -, hholds⟩ := upload_holds dev (fun _ => 1) (fun _ => ⟨0, 0⟩) (oneRecord 'B' 'D') []
    .zero
  have hspares : ∀ t ∈ r.2, t.SparesReset := by
    rw [hrun]
    intro t ht
    rcases List.mem_cons.mp ht with rfl | ht
    · exact fun hram => Bool.noConfusion hram
    · rw [List.mem_singleton.mp ht]
      exact fun _ => .inr (by decide)
  refine ⟨hrun, hholds (by decide) hspares _ r.2 (List.prefix_refl _) ?_ ?_⟩
  · rw [hrun]
    exact List.cons_ne_nil _ _
  · rw [hrun]
    decide

end

/-! ## Records -/

/-- A memory with the records written to it, in their order. -/
def image (m : Mem Byte) (records : List HexRecord) : Mem Byte :=
  records.foldl (fun m r => m.write r.addr.toNat r.data) m

/-- The digit of a number below 16. -/
def hexChar (n : Nat) : Char := if n < 10 then Char.ofNat (48 + n) else Char.ofNat (55 + n)

/-- The digits of some bytes. -/
def hexText (bs : List Byte) : List Char :=
  bs.flatMap fun b => [hexChar (b.toNat / 16), hexChar (b.toNat % 16)]

/-- The line of a record. -/
def recordText (kind : Byte) (r : HexRecord) : List Char := ':' :: hexText (r.bytes kind)

/-- A file for some records. -/
def ihxText : List HexRecord → List Char
  | [] => recordText 1 ⟨0, [], by decide⟩ ++ ['\n']
  | r :: rs => recordText 0 r ++ '\n' :: ihxText rs

theorem hexValue_hexChar {n : Nat} (h : n < 16) : hexValue (hexChar n) = some n := by
  have hall : ∀ n : Fin 16, hexValue (hexChar n) = some (n : Nat) := by decide
  exact hall ⟨n, h⟩

/-- The digits give the bytes back. -/
theorem hexText_spec (bs : List Byte) :
    AllHex (hexText bs) ∧ (hexText bs).length % 2 = 0 ∧ hexBytes (hexText bs) = bs := by
  induction bs with
  | nil => exact ⟨allHex_nil, rfl, rfl⟩
  | cons b bs ih =>
      obtain ⟨hhex, heven, hbytes⟩ := ih
      have hlt := b.isLt
      have hhigh := hexValue_hexChar (n := b.toNat / 16) (by omega)
      have hlow := hexValue_hexChar (n := b.toNat % 16) (by omega)
      have htext : hexText (b :: bs) =
          hexChar (b.toNat / 16) :: hexChar (b.toNat % 16) :: hexText bs := rfl
      refine ⟨?_, ?_, ?_⟩
      · rw [htext, allHex_cons, allHex_cons, hhigh, hlow]
        exact ⟨rfl, rfl, hhex⟩
      · rw [htext, List.length_cons, List.length_cons]
        omega
      · rw [htext, hexBytes, hhigh, hlow, hbytes, Option.getD_some, Option.getD_some,
          Nat.div_add_mod, BitVec.ofNat_toNat, BitVec.setWidth_eq]

theorem recordLine_recordText (kind : Byte) (r : HexRecord) :
    RecordLine kind r (recordText kind r) :=
  ⟨_, rfl, hexText_spec (r.bytes kind)⟩

/-- The file is one of these records. -/
theorem hexFile_ihxText (records : List HexRecord) : HexFile records (ihxText records) := by
  induction records with
  | nil => exact .eof ['\n'] (recordLine_recordText 1 _)
  | cons r rs ih => exact .record (recordLine_recordText 0 r) ih

/-- What the transfers for records store. -/
theorem foldl_store_records (m : Mem Byte) (records : List HexRecord) :
    (records.map fun r => Transfer.ram true (r.addr.setWidth 32) r.data).foldl Transfer.store m =
      image m records := by
  induction records generalizing m with
  | nil => rfl
  | cons r rs ih =>
      have haddr : (r.addr.setWidth 32).setWidth 16 = r.addr :=
        BitVec.setWidth_setWidth_of_le r.addr (by decide)
      have hstore : Transfer.store m (.ram true (r.addr.setWidth 32) r.data) =
          m.write r.addr.toNat r.data := by
        rw [Transfer.store, Transfer.setup, Transfer.write, haddr]
      rw [List.map_cons, image, List.foldl_cons, List.foldl_cons, ← hstore]
      exact ih _

/-- Two memories that differ at one address, with the same records written to them. -/
theorem image_congr {m m' : Mem Byte} {i : Nat} (h : m i = m' i) (records : List HexRecord) :
    image m records i = image m' records i := by
  induction records generalizing m m' with
  | nil => exact h
  | cons r rs ih =>
      refine ih ?_
      simp only [Mem.write, h]

/-- A file for a memory image leaves the image in the memory, and the processor running. -/
theorem upload_round_trip (records : List HexRecord) {v : HexVars} (hcode : v.code ≠ 1)
    (dev : Loader) (hdev : MovesAll dev (transfers records))
    (torn : List Transfer → Nat) (junk : Nat → Junk) (behind : List Char) (m : Mem Byte) :
    let r := cypressUploadIhxFirmware dev junk (ihxText records) behind v
    r.1 = 1 ∧ ¬ Held (memoryAfter dev torn m r.2) ∧
      ∀ i, i ≠ 0xE600 → memoryAfter dev torn m r.2 i = image m records i := by
  have huploads : Uploads dev _ (cypressUploadIhxFirmware dev junk (ihxText records) behind v) :=
    upload_uploads junk (ihxText records) behind v
  rw [fileTransfers_records junk (hexFile_ihxText records) behind hcode] at huploads
  intro r
  rw [show r = (1, transfers records) from huploads.all hdev.succeeds]
  have hstored : memoryAfter dev torn m (transfers records) =
      Transfer.store (image (Transfer.store m (.reset 1)) records) (.reset 0) := by
    rw [hdev.stores, transfers, List.foldl_append, List.foldl_append, foldl_store_records]
    rfl
  refine ⟨rfl, ?_, fun i hi => ?_⟩
  · rw [hstored, Held, store_reset]
    decide
  · have helse : ∀ (m : Mem Byte) (b : Byte), Transfer.store m (.reset b) i = m i := by
      intro m b
      rcases Nat.lt_or_gt_of_ne hi with hlt | hgt
      · exact Mem.write_of_lt m _ hlt
      · exact Mem.write_of_ge m hgt
    rw [hstored, helse]
    exact image_congr (helse m 1) records

/-- Two records, the second one over a part of the first. -/
theorem upload_round_trip_two :
    let records : List HexRecord := [⟨0x10, [1, 2, 3], by decide⟩, ⟨0x11, [4], by decide⟩]
    let dev : Loader := fun sent => (sent.getLast?.map fun w => w.2.length).getD 0
    let r := cypressUploadIhxFirmware dev (fun _ => ⟨0, 0⟩) (ihxText records) [] .zero
    r.1 = 1 ∧ ¬ Held (memoryAfter dev (fun _ => 0) (fun _ => 0) r.2) ∧
      ∀ i, i ≠ 0xE600 →
        memoryAfter dev (fun _ => 0) (fun _ => 0) r.2 i = image (fun _ => 0) records i :=
  upload_round_trip _ (by decide) _ (by decide) _ _ [] _

end Smbusb
