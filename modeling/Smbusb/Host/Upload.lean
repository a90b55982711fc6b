import Smbusb.Host.HexLine

/-!
# The firmware upload

`CypressUploadIhxFirmware`: it cuts the file into lines, stops the processor of the device,
writes what the data records say to its RAM, and starts it again.

*Lines.*  `strtok` cuts the copy of the file in place.  Nothing else writes to it, so
`fileLines` lists the lines in advance, each with what the memory is when it is parsed.  Behind
the copy comes what else is on the heap.

*Failures.*  The source drops what `parse_hex_line` returns, and looks at `code` instead, which
a line that fails early leaves as it was.  So a line that is not a record is written like the
one before it, and no file is ever refused (`upload_returns_one`).
-/

namespace Smbusb

open Logic Prog

/-! ## Lines -/

/-- The calls of `strtok` from the offset `pos` on: the line each returns, and the memory
then. -/
def strtokLines : Nat → Nat → List Char → List (Nat × List Char)
  | 0, _, _ => []
  | fuel + 1, pos, heap =>
      match strtokR '\n' heap pos with
      | (none, _) => []
      | (some (line, saveptr), heap) => (line, heap) :: strtokLines fuel saveptr heap

/-- The lines of a file, with `behind` on the heap behind its copy. -/
def fileLines (buf behind : List Char) : List (Nat × List Char) :=
  let heap := buf ++ nul :: behind
  strtokLines (heap.length + 1) 0 heap

/-- Every line takes a character at least, so fuel for one turn more than there are
characters is enough. -/
theorem strtokLines_fuel {fuel fuel' pos : Nat} {heap : List Char} (h : heap.length - pos < fuel)
    (h' : heap.length - pos < fuel') : strtokLines fuel pos heap = strtokLines fuel' pos heap := by
  induction fuel generalizing fuel' pos heap with
  | zero => exact absurd h (Nat.not_lt_zero _)
  | succ fuel ih =>
      cases fuel' with
      | zero => exact absurd h' (Nat.not_lt_zero _)
      | succ fuel' =>
          rw [strtokLines, strtokLines]
          split
          · rfl
          · next line saveptr heap' htok =>
            obtain ⟨hpos, hlt, hle, hlen⟩ := strtokR_some htok
            have hrest : strtokLines fuel saveptr heap' = strtokLines fuel' saveptr heap' :=
              ih (by omega) (by omega)
            rw [hrest]

/-! ## Transfers -/

/-- A control transfer of the upload. -/
inductive Transfer where
  /-- `CypressReset`. -/
  | reset (suspended : Byte)
  /-- `CypressWriteRam` for a line, and whether `parse_hex_line` accepted the line. -/
  | ram (accepted : Bool) (addr : UInt) (data : List Byte)
deriving DecidableEq, Repr

/-- `reset_address`. -/
def resetAddress : UInt := 0xE600

/-- The address and the data of the transfer. -/
def Transfer.write : Transfer → UInt × List Byte
  | reset suspended => (resetAddress, [suspended])
  | ram _ addr data => (addr, data)

/-- The setup packet of `CypressWriteRam`: the low and the high half of the address. -/
def Transfer.setup (t : Transfer) : Setup :=
  ⟨t.write.1.setWidth 16, (t.write.1 >>> 16).setWidth 16⟩

/-! ## The upload -/

/-- The variables of the upload, and the transfers made. -/
structure Uploader where
  vars : HexVars
  sent : List Transfer

/-- A part of `CypressUploadIhxFirmware`.  A jump is its `return i`. -/
abbrev Upload := Prog Int Uploader

/-- The device: the status of the last of the transfers made so far. -/
abbrev Loader := List (UInt × List Byte) → Int

section

variable (dev : Loader) (junk : Nat → Junk)

namespace Upload

/-- A transfer, `if (i<0) return i;`. -/
def transfer (t : Transfer) : Upload Unit := do
  modify fun s => { s with sent := s.sent ++ [t] }
  let i := dev ((← get).sent.map Transfer.write)
  if i < 0 then goto i else pure ()

/-- One turn of the loop.  When `code` is 1 the loop has ended. -/
def line (l : Nat × List Char) : Upload Unit := do
  let s ← get
  if s.vars.code = 1 then pure ()
  else
    let (accepted, v) := parseHexLine l.2 l.1 (junk l.1) s.vars
    modify fun s => { s with vars := v }
    if v.code = 0 then
      transfer dev (.ram accepted (BitVec.ofInt 32 v.addr) (v.bytes.read 0 v.num))
    else pure ()

def lines : List (Nat × List Char) → Upload Unit
  | [] => pure ()
  | l :: ls => do
      line dev junk l
      lines ls

end Upload

/-- `CypressUploadIhxFirmware`: its result, and the transfers it made. -/
def cypressUploadIhxFirmware (buf behind : List Char) (v : HexVars) : Int × List Transfer :=
  let upload : Upload Unit := do
    Upload.transfer dev (.reset 1)
    Upload.lines dev junk (fileLines buf behind)
    Upload.transfer dev (.reset 0)
  match upload ⟨v, []⟩ with
  | .ok _ s => (1, s.sent)
  | .error (.jump i) s => (i, s.sent)
  | .error .hang s => (0, s.sent)

/-! ## Bad files -/

/-- The lines up to an end-of-file record are accepted, and are of the types 00 and 01. -/
def goodLines : List (Nat × List Char) → HexVars → Bool
  | [], _ => false
  | l :: ls, v =>
      let (accepted, v') := parseHexLine l.2 l.1 (junk l.1) v
      accepted && (v'.code == 1 || v'.code == 0 && goodLines ls v')

/-- A file that is to be loaded. -/
def goodFile (buf behind : List Char) (v : HexVars) : Bool :=
  goodLines junk (fileLines buf behind) v

/-- Data is written for accepted lines only. -/
def OnlyAccepted (sent : List Transfer) : Prop :=
  ∀ accepted addr data, .ram accepted addr data ∈ sent → data ≠ [] → accepted = true

/-- A bad file is refused, and nothing of it is written but its records. -/
def RejectsBadFiles (buf behind : List Char) (v : HexVars) : Prop :=
  let (result, sent) := cypressUploadIhxFirmware dev junk buf behind v
  OnlyAccepted sent ∧ (result = 1 → goodFile junk buf behind v = true) ∧
    (¬ goodFile junk buf behind v = true → result < 0)

variable {dev}

theorem onlyAccepted_append {sent : List Transfer} {t : Transfer} (h : OnlyAccepted sent)
    (ht : ∀ accepted addr data, t = .ram accepted addr data → data ≠ [] → accepted = true) :
    OnlyAccepted (sent ++ [t]) := by
  intro accepted addr data hmem
  rcases List.mem_append.mp hmem with hmem | hmem
  · exact h accepted addr data hmem
  · exact ht accepted addr data (List.mem_singleton.mp hmem).symm

/-- The device accepts every transfer, so the upload goes on. -/
theorem transfer_run (hdev : ∀ sent, 0 ≤ dev sent) (t : Transfer) (s : Uploader) :
    Upload.transfer dev t s = .ok () { s with sent := s.sent ++ [t] } := by
  have h : wp (Upload.transfer dev t) (fun _ s' => s' = { s with sent := s.sent ++ [t] })
      (fun _ _ => False) s := by
    simp only [Upload.transfer, wp_bind, wp_modify, wp_get, wp_ite, wp_goto, wp_pure]
    rw [if_neg (Int.not_lt.mpr (hdev _))]
    trivial
  obtain ⟨⟨⟩, s', hrun, rfl⟩ := exists_run_of_wp h
  exact hrun

/-- One turn.  It parses the line, unless the loop has ended. -/
theorem line_run (hdev : ∀ sent, 0 ≤ dev sent) (l : Nat × List Char) (s : Uploader) :
    ∃ s', Upload.line dev junk l s = .ok () s' ∧ (s.vars.code = 1 → s' = s) ∧
      (s.vars.code ≠ 1 → ∀ accepted v, parseHexLine l.2 l.1 (junk l.1) s.vars = (accepted, v) →
        s'.vars = v ∧ (accepted = true → OnlyAccepted s.sent → OnlyAccepted s'.sent)) := by
  have hline : Upload.line dev junk l s =
      (if s.vars.code = 1 then (pure () : Upload Unit) else do
        let (accepted, v) := parseHexLine l.2 l.1 (junk l.1) s.vars
        modify fun s => { s with vars := v }
        if v.code = 0 then
          Upload.transfer dev (.ram accepted (BitVec.ofInt 32 v.addr) (v.bytes.read 0 v.num))
        else pure ()) s := rfl
  rw [hline]
  by_cases hend : s.vars.code = 1
  · rw [if_pos hend]
    exact ⟨s, rfl, fun _ => rfl, fun h => absurd hend h⟩
  · rw [if_neg hend]
    generalize parseHexLine l.2 l.1 (junk l.1) s.vars = r
    obtain ⟨accepted, v⟩ := r
    by_cases hdata : v.code = 0
    · refine ⟨{ s with vars := v, sent := s.sent ++ [.ram accepted (BitVec.ofInt 32 v.addr)
        (v.bytes.read 0 v.num)] }, ?_, fun h => absurd h hend, ?_⟩
      · simp only [hdata, if_true]
        exact transfer_run hdev _ { s with vars := v }
      · rintro - accepted' v' heq
        obtain ⟨rfl, rfl⟩ := Prod.mk.inj heq
        refine ⟨rfl, fun hacc hsent => onlyAccepted_append hsent ?_⟩
        rintro accepted' addr data ht -
        exact (Transfer.ram.inj ht).1 ▸ hacc
    · refine ⟨{ s with vars := v }, ?_, fun h => absurd h hend, ?_⟩
      · simp only [hdata, if_false]
        rfl
      · rintro - accepted' v' heq
        obtain ⟨rfl, rfl⟩ := Prod.mk.inj heq
        exact ⟨rfl, fun _ hsent => hsent⟩

/-- All turns.  Of a file that is to be loaded they write accepted lines only. -/
theorem wp_lines (hdev : ∀ sent, 0 ≤ dev sent) (ls : List (Nat × List Char)) (s : Uploader) :
    wp (Upload.lines dev junk ls) (fun _ s' =>
      s.vars.code = 1 ∨ goodLines junk ls s.vars = true → OnlyAccepted s.sent →
        OnlyAccepted s'.sent) (fun _ _ => False) s := by
  induction ls generalizing s with
  | nil => exact fun _ h => h
  | cons l ls ih =>
      obtain ⟨s₁, hrun, hended, hparsed⟩ := line_run junk hdev l s
      rw [Upload.lines, wp_bind, wp_of_run hrun]
      refine wp_mono (ih s₁) (fun _ s₂ h₂ hgood hsent => ?_) (fun _ _ h => h)
      by_cases hend : s.vars.code = 1
      · rw [hended hend] at h₂
        exact h₂ (.inl hend) hsent
      · obtain ⟨hvars, hsent₁⟩ := hparsed hend (parseHexLine l.2 l.1 (junk l.1) s.vars).1
          (parseHexLine l.2 l.1 (junk l.1) s.vars).2 rfl
        have hline : (parseHexLine l.2 l.1 (junk l.1) s.vars).1 = true ∧
            (s₁.vars.code = 1 ∨ s₁.vars.code = 0 ∧ goodLines junk ls s₁.vars = true) := by
          rw [hvars]
          simpa [goodLines] using hgood.resolve_left hend
        exact h₂ (hline.2.imp_right And.right) (hsent₁ hline.1 hsent)

/-- Whatever the file, the upload returns 1. -/
theorem upload_returns_one (hdev : ∀ sent, 0 ≤ dev sent) (buf behind : List Char) (v : HexVars) :
    ∃ sent, cypressUploadIhxFirmware dev junk buf behind v = (1, sent) ∧
      (goodFile junk buf behind v = true → OnlyAccepted sent) := by
  have hreset : ∀ {sent}, OnlyAccepted sent → ∀ b, OnlyAccepted (sent ++ [.reset b]) :=
    fun h b => onlyAccepted_append h fun _ _ _ h => Transfer.noConfusion h
  have h : wp (do
      Upload.transfer dev (.reset 1)
      Upload.lines dev junk (fileLines buf behind)
      Upload.transfer dev (.reset 0)) (fun _ s => goodFile junk buf behind v = true →
        OnlyAccepted s.sent) (fun _ _ => False) ⟨v, []⟩ := by
    rw [wp_bind, wp_of_run (transfer_run hdev _ _), wp_bind]
    refine wp_mono (wp_lines junk hdev _ _) (fun _ s hsent => ?_) (fun _ _ h => h)
    rw [wp_of_run (transfer_run hdev _ _)]
    refine fun hgood => hreset (hsent (.inr hgood) (hreset ?_ 1)) 0
    exact fun _ _ _ hmem => absurd hmem List.not_mem_nil
  obtain ⟨⟨⟩, s, hrun, hgood⟩ := exists_run_of_wp h
  exact ⟨s.sent, by simp only [cypressUploadIhxFirmware, hrun], hgood⟩

/-- Exactly the files that are to be loaded are handled as they should be. -/
theorem rejectsBadFiles_iff (hdev : ∀ sent, 0 ≤ dev sent) (buf behind : List Char) (v : HexVars) :
    RejectsBadFiles dev junk buf behind v ↔ goodFile junk buf behind v = true := by
  obtain ⟨sent, hrun, hgood⟩ := upload_returns_one junk hdev buf behind v
  simp only [RejectsBadFiles, hrun]
  constructor
  · exact fun h => h.2.1 trivial
  · exact fun h => ⟨hgood h, fun _ => h, fun hbad => absurd h hbad⟩

end

/-- Variables that are all 0. -/
def HexVars.zero : HexVars := ⟨fun _ => 0, 0, 0, 0⟩

/-- A file of one data record, 0x42 for the address 0, with this checksum. -/
def oneRecord (c d : Char) : List Char :=
  [':', '0', '1', '0', '0', '0', '0', '0', '0', '4', '2', c, d, '\n',
    ':', '0', '0', '0', '0', '0', '0', '0', '1', 'F', 'F', '\n']

theorem rejectsBadFiles_record :
    RejectsBadFiles (fun _ => 1) (fun _ => ⟨0, 0⟩) (oneRecord 'B' 'D') [] .zero :=
  (rejectsBadFiles_iff _ (fun _ => by decide) _ _ _).mpr (by decide +kernel)

/-- The data of a record whose checksum is wrong is written. -/
theorem not_rejectsBadFiles_checksum :
    ¬ RejectsBadFiles (fun _ => 1) (fun _ => ⟨0, 0⟩) (oneRecord 'B' 'E') [] .zero := by
  intro h
  have hmem : Transfer.ram false 0 [0x42] ∈ (cypressUploadIhxFirmware (fun _ => 1)
      (fun _ => ⟨0, 0⟩) (oneRecord 'B' 'E') [] .zero).2 := by decide +kernel
  exact Bool.false_ne_true (h.1 false 0 [0x42] hmem (by decide))

end Smbusb
