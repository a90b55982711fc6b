import Smbusb.Tools.Bq8030

/-!
# Flashing a bq8030

How the flashing of a memory ends, for any chip.  The two memories are told apart by the values
in `FlashMemory`, so most of this is said once for both.

*Takes.*  `Takes` is a condition on the chip: it accepts every block of a file and, when the
blocks are read back, answers what the tool compares with them.  A memory is flashed to the
end exactly then (`FlashEnd`, `flashProgram_ends`, `flashEeprom_ends`).
-/

namespace Smbusb

open Logic Prog Tool Bq8030

/-! ## The two memories -/

namespace FlashMemory

/-- The bytes of a block. -/
def blockSize : FlashMemory → Nat
  | program => programBlockSz
  | eeprom => eepromBlockSz

def blockCount : FlashMemory → Nat
  | program => programBlockCount
  | eeprom => eepromBlockCount

/-- The bytes of a block that are compared. -/
def compared : FlashMemory → Nat
  | program => programBlockSz
  | eeprom => eepromBlockSz - eepromReservedBytes

/-- The bytes of the memory. -/
def flashSize (m : FlashMemory) : Nat := m.blockSize * m.blockCount

/-- The call that erases the memory. -/
def erase : FlashMemory → Call
  | program => .writeWord cmdEraseProgramFlash dataEraseConfirm
  | eeprom => .writeWord cmdEraseEepromFlash dataEraseConfirm

/-- The call that writes a block. -/
def writeCall : FlashMemory → Nat → List Byte → Call
  | program => programBlockCall
  | eeprom => eepromBlockCall

/-- The call that sets the address of a block. -/
def setCall : FlashMemory → Nat → Call
  | program => setProgramBlock
  | eeprom => setEepromBlock

/-- The call that reads the block at the address. -/
def readCall : FlashMemory → Call
  | program => .readBlock cmdReadProgramBlock
  | eeprom => .readBlock cmdReadEepromBlock

/-- The bytes of the call that writes a block besides the block. -/
def overhead : FlashMemory → Nat
  | program => 2
  | eeprom => 1

/-- The address is set. -/
def Addressed : FlashMemory → Int → Prop
  | program, status => status = 3
  | eeprom, status => 0 ≤ status

instance (m : FlashMemory) (status : Int) : Decidable (m.Addressed status) :=
  match m with
  | program => inferInstanceAs (Decidable (status = 3))
  | eeprom => inferInstanceAs (Decidable (0 ≤ status))

/-- The commands that erase or write the memory. -/
def destroys : FlashMemory → Call → Bool
  | program, .writeWord command _ => command == cmdEraseProgramFlash
  | program, .writeBlock command _ => command == cmdWriteProgramBlock
  | eeprom, .writeWord command _ => command == cmdEraseEepromFlash
  | eeprom, .writeBlock command _ => command == cmdWriteEepromBlock
  | _, _ => false

/-- The calls that write the first `k` blocks of a file. -/
def writes (m : FlashMemory) (file : List Byte) (k : Nat) : List Call :=
  (List.range k).map fun i => m.writeCall i (fileBlock m.blockSize file i)

/-- The calls that read the first `k` blocks. -/
def reads (m : FlashMemory) (k : Nat) : List Call :=
  (List.range k).flatMap fun i => [m.setCall i, m.readCall]

@[simp] theorem writes_zero (m : FlashMemory) (file : List Byte) : m.writes file 0 = [] := rfl

theorem writes_succ (m : FlashMemory) (file : List Byte) (k : Nat) :
    m.writes file (k + 1) = m.writes file k ++ [m.writeCall k (fileBlock m.blockSize file k)] := by
  simp [writes, List.range_succ]

@[simp] theorem reads_zero (m : FlashMemory) : m.reads 0 = [] := rfl

theorem reads_succ (m : FlashMemory) (k : Nat) :
    m.reads (k + 1) = m.reads k ++ [m.setCall k, m.readCall] := by
  simp [reads, List.range_succ]

/-- All calls of a flash. -/
def session (m : FlashMemory) (file : List Byte) (verify : Bool) : List Call :=
  m.erase :: m.writes file m.blockCount ++ if verify then m.reads m.blockCount else []

/-- The calls for the memory. -/
inductive Uses (m : FlashMemory) : Call → Prop
  | erase : Uses m m.erase
  | write (i : Nat) (buf : List Byte) : Uses m (m.writeCall i buf)
  | set (i : Nat) : Uses m (m.setCall i)
  | read : Uses m m.readCall

/-- They destroy nothing else. -/
theorem Uses.destroys {m m' : FlashMemory} {c : Call} (h : m.Uses c) (hd : m'.destroys c = true) :
    m' = m := by
  cases h <;> cases m <;> cases m' <;> first
    | rfl
    | exact Bool.noConfusion hd

theorem destroys_erase (m : FlashMemory) : m.destroys m.erase = true := by
  cases m <;> decide

/-- Setting an address and reading destroy nothing. -/
theorem destroys_setCall (m m' : FlashMemory) (i : Nat) : m'.destroys (m.setCall i) = false := by
  cases m <;> cases m' <;> rfl

theorem destroys_readCall (m m' : FlashMemory) : m'.destroys m.readCall = false := by
  cases m <;> cases m' <;> rfl

theorem uses_writes (m : FlashMemory) (file : List Byte) (k : Nat) :
    ∀ c ∈ m.writes file k, m.Uses c := by
  intro c hc
  obtain ⟨i, -, rfl⟩ := List.mem_map.mp hc
  exact .write _ _

theorem uses_reads (m : FlashMemory) (k : Nat) : ∀ c ∈ m.reads k, m.Uses c := by
  intro c hc
  obtain ⟨i, -, hc⟩ := List.mem_flatMap.mp hc
  rcases List.mem_cons.mp hc with rfl | hc
  · exact .set i
  · rw [List.mem_singleton.mp hc]
    exact .read

theorem uses_session (m : FlashMemory) (file : List Byte) (verify : Bool) :
    ∀ c ∈ m.session file verify, m.Uses c := by
  intro c hc
  rw [session, List.cons_append] at hc
  rcases List.mem_cons.mp hc with rfl | hc
  · exact .erase
  · rcases List.mem_append.mp hc with hc | hc
    · exact m.uses_writes _ _ c hc
    · cases verify with
      | false => exact absurd hc List.not_mem_nil
      | true => exact m.uses_reads _ c hc

end FlashMemory

/-! ## What the chip takes -/

section

variable (chip : Chip) (m : FlashMemory)

/-- The chip accepts the block `i` of a file. -/
def TakesWrite (before : List Call) (file : List Byte) (i : Nat) : Prop :=
  chip.status (before ++ m.writes file (i + 1)) = m.blockSize + m.overhead

/-- The chip answers a whole block, and the bytes that are compared are those of the file. -/
def AnswersRead (before : List Call) (file : List Byte) (i : Nat) : Prop :=
  m.Addressed (chip.status (before ++ m.reads i ++ [m.setCall i])) ∧
    (chip.block (before ++ m.reads (i + 1))).status = m.blockSize ∧
      (fileBlock m.blockSize file i).take m.compared =
        (chip.block (before ++ m.reads (i + 1))).data.take m.compared

/-- After these calls, the chip takes the file. -/
structure Takes (before : List Call) (file : List Byte) (verify : Bool) : Prop where
  writes : ∀ i < m.blockCount, TakesWrite chip m (before ++ [m.erase]) file i
  reads : verify = true → ∀ i < m.blockCount,
    AnswersRead chip m (before ++ [m.erase] ++ m.writes file m.blockCount) file i

/-- The tool has ended with an error in the middle of a flash. -/
structure Fault (s s' : ToolState) : Prop where
  sent : ∃ new, s'.sent = s.sent ++ new ∧ ∀ c ∈ new, m.Uses c
  out : ∃ line, s'.out = s.out ++ [line] ∧
    ((∃ status, line = .error status) ∨ ∃ i, line = .verifyFail i)

variable {m} in
/-- A fault after more calls for the same memory. -/
theorem Fault.after {s s' : ToolState} (calls : List Call) (hcalls : ∀ c ∈ calls, m.Uses c)
    (h : Fault m { s with sent := s.sent ++ calls } s') : Fault m s s' := by
  obtain ⟨⟨new, hsent, hnew⟩, hout⟩ := h
  refine ⟨⟨calls ++ new, by rw [hsent, List.append_assoc], fun c hc => ?_⟩, hout⟩
  rcases List.mem_append.mp hc with hc | hc
  · exact hcalls c hc
  · exact hnew c hc

/-! ## The loops -/

/-- The function of the source that writes a block. -/
def FlashMemory.writeBlock : FlashMemory → Nat → List Byte → Tool Int
  | program => writeProgramBlock chip
  | eeprom => writeEepromBlock chip

/-- The function of the source that reads a block. -/
def FlashMemory.readBlock : FlashMemory → Nat → Tool BlockAnswer
  | program => readProgramBlock chip
  | eeprom => readEepromBlock chip

theorem wp_writeBlock {Q : Int → ToolState → Prop} {E : Int → ToolState → Prop} (i : Nat)
    (buf : List Byte) (s : ToolState) : wp (m.writeBlock chip i buf) Q E s ↔
      Q (chip.status (s.sent ++ [m.writeCall i buf]) - m.overhead)
        { s with sent := s.sent ++ [m.writeCall i buf] } := by
  cases m <;> rfl

theorem wp_readBlock {Q : BlockAnswer → ToolState → Prop} {E : Int → ToolState → Prop} (i : Nat)
    (s : ToolState) : wp (m.readBlock chip i) Q E s ↔
      if m.Addressed (chip.status (s.sent ++ [m.setCall i])) then
        Q (chip.block (s.sent ++ [m.setCall i] ++ [m.readCall]))
          { s with sent := s.sent ++ [m.setCall i] ++ [m.readCall] }
      else Q (.failed 0) { s with sent := s.sent ++ [m.setCall i] } := by
  cases m with
  | program =>
      simp only [FlashMemory.readBlock, readProgramBlock, wp_bind, wp_call, wp_ite, wp_pure,
        Tool.wp_readBlock, ite_not]
      rfl
  | eeprom =>
      simp only [FlashMemory.readBlock, readEepromBlock, wp_bind, wp_call, wp_ite, wp_pure,
        Tool.wp_readBlock, ← Int.not_le, ite_not]
      rfl

/-- The write loop: the chip accepts all blocks, or the tool ends. -/
theorem wp_flashBlocks {Q : Unit → ToolState → Prop} {E : Int → ToolState → Prop}
    (file : List Byte) (s : ToolState)
    (hall : (∀ i < m.blockCount, TakesWrite chip m s.sent file i) →
      Q () { s with sent := s.sent ++ m.writes file m.blockCount })
    (hfault : ∀ code s', (∃ i < m.blockCount, ¬ TakesWrite chip m s.sent file i) → Fault m s s' →
      E code s') :
    wp (flashBlocks m.blockSize m.blockCount file (m.writeBlock chip)) Q E s := by
  rw [flashBlocks]
  refine wp_forUpTo (fun k s' => (∀ i < k, TakesWrite chip m s.sent file i) ∧
    s' = { s with sent := s.sent ++ m.writes file k }) (fun k _ hk s' => ?_) (fun s' => ?_) ?_
  · rintro ⟨htakes, rfl⟩
    have hsent : s.sent ++ m.writes file k ++ [m.writeCall k (fileBlock m.blockSize file k)] =
        s.sent ++ m.writes file (k + 1) := by
      rw [m.writes_succ, List.append_assoc]
    simp only [wp_bind, wp_writeBlock, hsent, wp_ite, wp_print, wp_exit, wp_pure]
    split
    · next hstatus =>
      refine hfault 2 _ ⟨k, by omega, fun htake => hstatus ?_⟩
        ⟨⟨m.writes file (k + 1), rfl, m.uses_writes file (k + 1)⟩, _, rfl, .inl ⟨_, rfl⟩⟩
      rw [htake]
      exact Int.add_sub_cancel _ _
    · next hstatus =>
      refine ⟨fun i hi => ?_, trivial⟩
      rcases Nat.lt_succ_iff_lt_or_eq.mp hi with hi | rfl
      · exact htakes i hi
      · rw [TakesWrite]
        omega
  · rintro ⟨htakes, rfl⟩
    rw [Nat.zero_add] at htakes ⊢
    exact hall htakes
  · exact ⟨fun i hi => absurd hi (Nat.not_lt_zero i), by simp⟩

/-- The verify loop. -/
theorem wp_verifyBlocks {Q : Unit → ToolState → Prop} {E : Int → ToolState → Prop}
    (file : List Byte) (s : ToolState)
    (hall : (∀ i < m.blockCount, AnswersRead chip m s.sent file i) →
      Q () { s with sent := s.sent ++ m.reads m.blockCount })
    (hfault : ∀ code s', (∃ i < m.blockCount, ¬ AnswersRead chip m s.sent file i) → Fault m s s' →
      E code s') :
    wp (verifyBlocks m.blockSize m.blockCount m.compared file (m.readBlock chip)) Q E s := by
  rw [verifyBlocks]
  refine wp_forUpTo (fun k s' => (∀ i < k, AnswersRead chip m s.sent file i) ∧
    s' = { s with sent := s.sent ++ m.reads k }) (fun k _ hk s' => ?_) (fun s' => ?_) ?_
  · rintro ⟨hanswers, rfl⟩
    have hsent : s.sent ++ m.reads k ++ [m.setCall k] ++ [m.readCall] =
        s.sent ++ m.reads (k + 1) := by
      rw [m.reads_succ, List.append_assoc, List.append_assoc]
      rfl
    have hpartly : ∀ c ∈ m.reads k ++ [m.setCall k], m.Uses c := by
      intro c hc
      rcases List.mem_append.mp hc with hc | hc
      · exact m.uses_reads k c hc
      · rw [List.mem_singleton.mp hc]
        exact .set k
    simp only [wp_bind, wp_readBlock, hsent, wp_ite, wp_print, wp_exit, wp_pure]
    split
    · next haddr =>
      split
      · next hstatus =>
        refine hfault 2 _ ⟨k, by omega, ?_⟩
          ⟨⟨m.reads (k + 1), rfl, m.uses_reads (k + 1)⟩, _, rfl, .inl ⟨_, rfl⟩⟩
        exact fun hanswer => hstatus hanswer.2.1
      · next hstatus =>
        split
        · next hsame =>
          refine ⟨fun i hi => ?_, trivial⟩
          rcases Nat.lt_succ_iff_lt_or_eq.mp hi with hi | rfl
          · exact hanswers i hi
          · exact ⟨haddr, Classical.not_not.mp hstatus, hsame⟩
        · next hdiffers =>
          refine hfault 0 _ ⟨k, by omega, ?_⟩
            ⟨⟨m.reads (k + 1), rfl, m.uses_reads (k + 1)⟩, _, rfl, .inr ⟨k, rfl⟩⟩
          exact fun hanswer => hdiffers hanswer.2.2
    · next haddr =>
      rw [if_pos (BlockAnswer.failed_status 0 _)]
      refine hfault 2 _ ⟨k, by omega, fun hanswer => haddr hanswer.1⟩
        ⟨⟨m.reads k ++ [m.setCall k], List.append_assoc _ _ _, hpartly⟩, _, rfl, .inl ⟨_, rfl⟩⟩
  · rintro ⟨hanswers, rfl⟩
    rw [Nat.zero_add] at hanswers ⊢
    exact hall hanswers
  · exact ⟨fun i hi => absurd hi (Nat.not_lt_zero i), by simp⟩

end

/-! ## One memory -/

/-- The file to be flashed. -/
def FlashMemory.input (v : BqVars) : FlashMemory → Option (List Char)
  | program => v.programIn
  | eeprom => v.eepromIn

/-- What is sent before the file is looked at. -/
def FlashMemory.early : FlashMemory → List Call
  | program => [FlashMemory.program.erase]
  | eeprom => []

/-- How the flashing of a memory from `s` ends, and whether the tool goes on. -/
inductive FlashEnd (chip : Chip) (files : Files) (v : BqVars) (m : FlashMemory) (s : ToolState) :
    Bool → ToolState → Prop
  | skipped : m.input v = none → FlashEnd chip files v m s true s
  | unconfirmed {name : List Char} : m.input v = some name → v.confirmDelete = false →
      FlashEnd chip files v m s false { s with out := s.out ++ [.confirm] }
  | noFile {name : List Char} : m.input v = some name → v.confirmDelete = true →
      files.input name = none → FlashEnd chip files v m s false
        { s with sent := s.sent ++ m.early, out := s.out ++ [.inputError] }
  | wrongSize {name : List Char} {file : List Byte} : m.input v = some name →
      v.confirmDelete = true → files.input name = some file → toInt file.length ≠ m.flashSize →
      FlashEnd chip files v m s false
        { s with sent := s.sent ++ m.early, out := s.out ++ [.sizeError] }
  | fault {name : List Char} {file : List Byte} {s' : ToolState} : m.input v = some name →
      v.confirmDelete = true → files.input name = some file → toInt file.length = m.flashSize →
      ¬ Takes chip m s.sent file (!v.noVerify) →
      Fault m { s with sent := s.sent ++ [m.erase] } s' → FlashEnd chip files v m s false s'
  | done {name : List Char} {file : List Byte} : m.input v = some name →
      v.confirmDelete = true → files.input name = some file → toInt file.length = m.flashSize →
      Takes chip m s.sent file (!v.noVerify) → FlashEnd chip files v m s true
        { s with sent := s.sent ++ m.session file (!v.noVerify),
                 out := s.out ++ [.verified (some m)] }

section

variable {chip : Chip} {files : Files} {v : BqVars}

/-- What follows when the memory is erased and the file is open. -/
theorem wp_flash (m : FlashMemory) {Q : Unit → ToolState → Prop} {E : Int → ToolState → Prop}
    (file : List Byte) (verify : Bool) (s : ToolState)
    (hall : Takes chip m s.sent file verify → Q ()
      { s with sent := s.sent ++ m.session file verify, out := s.out ++ [.verified (some m)] })
    (hfault : ∀ code s', ¬ Takes chip m s.sent file verify →
      Fault m { s with sent := s.sent ++ [m.erase] } s' → E code s') :
    wp (flashBlocks m.blockSize m.blockCount file (m.writeBlock chip)) (fun _ s' =>
      if verify = true then
        wp (verifyBlocks m.blockSize m.blockCount m.compared file (m.readBlock chip)) (fun _ s' =>
          Q () { s' with out := s'.out ++ [.verified (some m)] }) E s'
      else Q () { s' with out := s'.out ++ [.verified (some m)] }) E
      { s with sent := s.sent ++ [m.erase] } := by
  refine wp_flashBlocks chip m file _ (fun hwrites => ?_) fun code s' hno => hfault code s' ?_
  · cases verify with
    | false =>
        have htakes : Takes chip m s.sent file false := ⟨hwrites, Bool.noConfusion⟩
        have hsent : s.sent ++ [m.erase] ++ m.writes file m.blockCount =
            s.sent ++ m.session file false := by
          simp [FlashMemory.session]
        have hdone := hall htakes
        rw [← hsent] at hdone
        exact hdone
    | true =>
        rw [if_pos rfl]
        refine wp_verifyBlocks chip m file _ (fun hreads => ?_) fun code s' hno h => ?_
        · have htakes : Takes chip m s.sent file true := ⟨hwrites, fun _ => hreads⟩
          have hsent : s.sent ++ [m.erase] ++ m.writes file m.blockCount ++ m.reads m.blockCount =
              s.sent ++ m.session file true := by
            simp [FlashMemory.session]
          have hdone := hall htakes
          rw [← hsent] at hdone
          exact hdone
        · obtain ⟨i, hi, hno⟩ := hno
          refine hfault code s' (fun htakes => hno (htakes.reads rfl i hi)) ?_
          exact Fault.after (s := { s with sent := s.sent ++ [m.erase] }) _
            (m.uses_writes file m.blockCount) h
  · obtain ⟨i, hi, hno⟩ := hno
    exact fun htakes => hno (htakes.writes i hi)

theorem flashProgram_ends (s : ToolState) :
    wp (flashProgram chip files v) (fun _ => FlashEnd chip files v .program s true)
      (fun _ => FlashEnd chip files v .program s false) s := by
  rw [flashProgram]
  split
  · next hname => exact .skipped hname
  · next name hname =>
    simp only [wp_ite, wp_bind, wp_print, wp_exit]
    split
    · next hconfirm => exact .unconfirmed hname (by simpa using hconfirm)
    · next hconfirm =>
      have hconfirm : v.confirmDelete = true := by simpa using hconfirm
      simp only [eraseProgramFlash, wp_bind, wp_call, wp_pure, wp_openSized]
      split
      · next hfile => exact .noFile hname hconfirm hfile
      · next file hfile =>
        split
        · next hsize => exact .wrongSize hname hconfirm hfile hsize
        · next hsize =>
          have hsize : toInt file.length = FlashMemory.program.flashSize :=
            Classical.not_not.mp hsize
          refine wp_flash .program (Q := fun _ => FlashEnd chip files v .program s true)
            (E := fun _ => FlashEnd chip files v .program s false) file (!v.noVerify) s ?_ ?_
          · exact fun htakes => .done hname hconfirm hfile hsize htakes
          · exact fun _ _ hno h => .fault hname hconfirm hfile hsize hno h

theorem flashEeprom_ends (s : ToolState) :
    wp (flashEeprom chip files v) (fun _ => FlashEnd chip files v .eeprom s true)
      (fun _ => FlashEnd chip files v .eeprom s false) s := by
  rw [flashEeprom]
  split
  · next hname => exact .skipped hname
  · next name hname =>
    simp only [wp_ite, wp_bind, wp_print, wp_exit]
    split
    · next hconfirm => exact .unconfirmed hname (by simpa using hconfirm)
    · next hconfirm =>
      have hconfirm : v.confirmDelete = true := by simpa using hconfirm
      have hearly : s.sent ++ FlashMemory.eeprom.early = s.sent := List.append_nil _
      rw [wp_openSized]
      split
      · next hfile =>
        have hend : FlashEnd chip files v .eeprom s false _ := .noFile hname hconfirm hfile
        rwa [hearly] at hend
      · next file hfile =>
        split
        · next hsize =>
          have hend : FlashEnd chip files v .eeprom s false _ :=
            .wrongSize hname hconfirm hfile hsize
          rwa [hearly] at hend
        · next hsize =>
          have hsize : toInt file.length = FlashMemory.eeprom.flashSize :=
            Classical.not_not.mp hsize
          simp only [eraseEepromFlash, wp_bind, wp_call, wp_pure]
          refine wp_flash .eeprom (Q := fun _ => FlashEnd chip files v .eeprom s true)
            (E := fun _ => FlashEnd chip files v .eeprom s false) file (!v.noVerify) s ?_ ?_
          · exact fun htakes => .done hname hconfirm hfile hsize htakes
          · exact fun _ _ hno h => .fault hname hconfirm hfile hsize hno h

end

end Smbusb
