import Smbusb.Tools.Bq8030Run

/-!
# What `Verified OK!` is worth

`smbusb_bq8030flasher` prints `Verified OK!` behind each memory it has flashed.  `VerifiedSound`
is what the line promises: every block was read back, and was that of the file.

The line is printed with `--no-verify` too, which reads nothing back.  And of a block of the
eeprom `EEPROM_BLOCKSZ - EEPROM_RESERVED_BYTES` bytes are compared, which is none.  So the line is
true when no flash runs to its end without a verification, and the eeprom, when it is flashed,
happens to hold the file (`verifiedSound_iff`).
-/

namespace Smbusb

open Logic Prog Tool Bq8030

/-! ## The promise -/

/-- After the block `i` was written it was read back, and is what was written. -/
def ReadBack (chip : Chip) (m : FlashMemory) (sent : List Call) (i : Nat) (data : List Byte) :
    Prop :=
  ∃ before, before ++ m.setCall i :: [m.readCall] <+: sent ∧ m.writeCall i data ∈ before ∧
    (chip.block (before ++ m.setCall i :: [m.readCall])).Gives data

/-- A memory that is said to be verified holds the file. -/
def VerifiedSound (chip : Chip) (files : Files) (cmd : CommandLine BqOption) : Prop :=
  ∀ m, .verified (some m) ∈ (bq8030flasher chip files cmd).out →
    ∃ v name file, bqOptions cmd.opts .init = some v ∧ m.input v = some name ∧
      files.input name = some file ∧ ∀ i < m.blockCount,
        ReadBack chip m (bq8030flasher chip files cmd).sent i (fileBlock m.blockSize file i)

/-! ## Flashes that run to their end -/

/-- The file of a memory, when it is to be flashed and is found to have the size. -/
structure Usable (files : Files) (v : BqVars) (m : FlashMemory) (file : List Byte) : Prop where
  input : ∃ name, m.input v = some name ∧ files.input name = some file
  confirmed : v.confirmDelete = true
  size : toInt file.length = m.flashSize

/-- The calls made when the flashing of a memory starts.  The eeprom comes behind the program
flash. -/
def Reached (chip : Chip) (files : Files) (v : BqVars) : FlashMemory → List Call → Prop
  | .program, before => before = opening v
  | .eeprom, before => v.programIn = none ∧ before = opening v ∨
      ∃ file, Usable files v .program file ∧ Takes chip .program (opening v) file (!v.noVerify) ∧
        before = opening v ++ FlashMemory.program.session file (!v.noVerify)

/-- After the calls `before`, the file is flashed to the end. -/
structure FlashDone (chip : Chip) (files : Files) (cmd : CommandLine BqOption) (v : BqVars)
    (m : FlashMemory) (before : List Call) (file : List Byte) : Prop where
  flashes : Flashes chip cmd v
  reached : Reached chip files v m before
  usable : Usable files v m file
  takes : Takes chip m before file (!v.noVerify)

section

variable {chip : Chip} {files : Files} {v : BqVars} {m : FlashMemory} {s s' : ToolState} {b : Bool}

/-- The calls of a flash are for its memory. -/
theorem FlashEnd.uses (h : FlashEnd chip files v m s b s') :
    ∃ new, s'.sent = s.sent ++ new ∧ ∀ c ∈ new, m.Uses c := by
  have hearly : ∀ c ∈ m.early, m.Uses c := by
    intro c hc
    cases m with
    | program => exact List.mem_singleton.mp hc ▸ .erase
    | eeprom => exact absurd hc List.not_mem_nil
  cases h with
  | skipped => exact ⟨[], (List.append_nil _).symm, fun _ hc => absurd hc List.not_mem_nil⟩
  | unconfirmed => exact ⟨[], (List.append_nil _).symm, fun _ hc => absurd hc List.not_mem_nil⟩
  | noFile => exact ⟨m.early, rfl, hearly⟩
  | wrongSize => exact ⟨m.early, rfl, hearly⟩
  | fault _ _ _ _ _ h =>
      exact (h.after [m.erase] fun c hc => List.mem_singleton.mp hc ▸ .erase).sent
  | done => exact ⟨_, rfl, m.uses_session _ _⟩

/-- A flash that goes on was skipped, or ran to its end. -/
theorem FlashEnd.goes_on (h : FlashEnd chip files v m s true s') :
    m.input v = none ∧ s' = s ∨ ∃ file, Usable files v m file ∧
      Takes chip m s.sent file (!v.noVerify) ∧
      s'.sent = s.sent ++ m.session file (!v.noVerify) ∧
      s'.out = s.out ++ [.verified (some m)] := by
  cases h with
  | skipped hname => exact .inl ⟨hname, rfl⟩
  | done hname hconfirm hfile hsize htakes =>
      exact .inr ⟨_, ⟨⟨_, hname, hfile⟩, hconfirm, hsize⟩, htakes, rfl, rfl⟩

theorem FlashEnd.lines (h : FlashEnd chip files v m s true s') :
    ∃ lines, s'.out = s.out ++ lines := by
  rcases h.goes_on with ⟨-, rfl⟩ | ⟨file, -, -, -, hout⟩
  · exact ⟨[], (List.append_nil _).symm⟩
  · exact ⟨_, hout⟩

/-- A flash that ends the tool prints something else than `Verified OK!`. -/
theorem FlashEnd.stops (h : FlashEnd chip files v m s false s') :
    (∃ name, m.input v = some name) ∧
      (∀ file, Usable files v m file → ¬ Takes chip m s.sent file (!v.noVerify)) ∧
      ∃ line, s'.out = s.out ++ [line] ∧ ∀ m', line ≠ .verified m' := by
  have hunique : ∀ {name} {file}, m.input v = some name → Usable files v m file →
      files.input name = some file := by
    rintro name file hname ⟨⟨name', hname', hfile'⟩, -, -⟩
    rwa [Option.some.inj (hname.symm.trans hname')]
  cases h with
  | unconfirmed hname hconfirm =>
      refine ⟨⟨_, hname⟩, fun file hfile => ?_, _, rfl, fun _ => Line.noConfusion⟩
      exact absurd (hconfirm.symm.trans hfile.confirmed) Bool.false_ne_true
  | noFile hname _ hno =>
      refine ⟨⟨_, hname⟩, fun file hfile => ?_, _, rfl, fun _ => Line.noConfusion⟩
      exact absurd (hno.symm.trans (hunique hname hfile)) (Option.some_ne_none _).symm
  | wrongSize hname _ hfound hsize =>
      refine ⟨⟨_, hname⟩, fun file hfile => ?_, _, rfl, fun _ => Line.noConfusion⟩
      obtain rfl := Option.some.inj (hfound.symm.trans (hunique hname hfile))
      exact absurd hfile.size hsize
  | fault hname _ hfound _ hno h =>
      refine ⟨⟨_, hname⟩, fun file hfile => ?_, ?_⟩
      · obtain rfl := Option.some.inj (hfound.symm.trans (hunique hname hfile))
        exact hno
      · obtain ⟨line, hout, ⟨status, rfl⟩ | ⟨i, rfl⟩⟩ := h.out
        · exact ⟨_, hout, fun _ => Line.noConfusion⟩
        · exact ⟨_, hout, fun _ => Line.noConfusion⟩

end

/-! ## What was sent around a flash -/

/-- The call reads no block of the memory and sets none. -/
def FlashMemory.Foreign (m : FlashMemory) (c : Call) : Prop :=
  c ≠ m.readCall ∧ ∀ i, c ≠ m.setCall i

theorem FlashMemory.Uses.foreign {m m' : FlashMemory} {c : Call} (h : m.Uses c) (hm : m ≠ m') :
    m'.Foreign c := by
  refine ⟨fun hc => ?_, fun i hc => ?_⟩
  all_goals
    cases h <;> cases m <;> cases m' <;> first
      | exact hm rfl
      | simp [FlashMemory.erase, FlashMemory.writeCall, FlashMemory.setCall, FlashMemory.readCall,
          programBlockCall, eepromBlockCall, setProgramBlock, setEepromBlock,
          cmdWriteProgramBlock, cmdSetProgramBlockAddress, cmdWriteEepromBlock,
          cmdEraseProgramFlash, cmdSetEepromAddress, cmdReadProgramBlock, cmdReadEepromBlock,
          cmdEraseEepromFlash] at hc

theorem foreign_opening (v : BqVars) (m : FlashMemory) : ∀ c ∈ opening v, m.Foreign c := by
  intro c hc
  simp only [opening, List.mem_cons, List.not_mem_nil, or_false] at hc
  rcases hc with rfl | rfl | rfl | rfl <;> cases m <;>
    exact ⟨by simp [FlashMemory.readCall, cmdSbsChemistry, cmdReadProgramBlock,
      cmdReadEepromBlock], fun i => Call.noConfusion⟩

theorem foreign_execute (m : FlashMemory) : m.Foreign (.sendByte cmdExecuteFlash) := by
  cases m <;> exact ⟨Call.noConfusion, fun i => Call.noConfusion⟩

/-- Erasing and writing a memory reads nothing. -/
theorem foreign_writes (m : FlashMemory) (file : List Byte) :
    ∀ c ∈ m.erase :: m.writes file m.blockCount, m.Foreign c := by
  intro c hc
  rcases List.mem_cons.mp hc with rfl | hc
  · cases m <;> exact ⟨by decide, fun i => by simp [FlashMemory.erase, FlashMemory.setCall,
      setProgramBlock, setEepromBlock, cmdEraseEepromFlash, cmdSetEepromAddress]⟩
  · obtain ⟨i, -, rfl⟩ := List.mem_map.mp hc
    cases m <;> exact ⟨Call.noConfusion, fun i => by simp [FlashMemory.writeCall,
      FlashMemory.setCall, setProgramBlock, programBlockCall, setEepromBlock, eepromBlockCall,
      cmdWriteProgramBlock, cmdSetProgramBlockAddress]⟩

/-- The blocks of the eeprom have different addresses. -/
theorem setEeprom_inj {i j : Nat} (hi : i < FlashMemory.eeprom.blockCount)
    (hj : j < FlashMemory.eeprom.blockCount)
    (h : FlashMemory.eeprom.setCall i = FlashMemory.eeprom.setCall j) : i = j := by
  have hdata : BitVec.ofNat 16 (eepromBaseAddr + i % 256 * 32) =
      BitVec.ofNat 16 (eepromBaseAddr + j % 256 * 32) := (Call.writeWord.inj h).2
  have hmod := congrArg BitVec.toNat hdata
  simp only [BitVec.toNat_ofNat, eepromBaseAddr] at hmod
  simp only [FlashMemory.blockCount, eepromBlockCount] at hi hj
  omega

/-! ## Which memories are said to be verified -/

section

variable {chip : Chip} {files : Files} {cmd : CommandLine BqOption}

/-- A memory that is said to be verified was flashed to the end. -/
theorem flashDone_of_verified {m : FlashMemory}
    (h : .verified (some m) ∈ (bq8030flasher chip files cmd).out) :
    ∃ v before file, FlashDone chip files cmd v m before file := by
  have hstop : ∀ {s s' : ToolState} {m'} {v}, FlashEnd chip files v m' s false s' →
      .verified (some m) ∈ s'.out → .verified (some m) ∈ s.out := by
    intro s s' m' v hend hmem
    obtain ⟨-, -, line, hout, hline⟩ := hend.stops
    rw [hout] at hmem
    refine (List.mem_append.mp hmem).resolve_right fun hmem => ?_
    exact hline _ (List.mem_singleton.mp hmem).symm
  have hprogram : ∀ {v} {s₁ : ToolState}, Flashes chip cmd v →
      FlashEnd chip files v .program (opened v) true s₁ → .verified (some m) ∈ s₁.out →
      ∃ v before file, FlashDone chip files cmd v m before file := by
    intro v s₁ hflash hend hmem
    rcases hend.goes_on with ⟨-, rfl⟩ | ⟨file, husable, htakes, -, hout⟩
    · exact absurd hmem List.not_mem_nil
    · rw [hout] at hmem
      obtain rfl : m = .program := by simpa [opened] using hmem
      exact ⟨v, opening v, file, hflash, rfl, husable, htakes⟩
  cases bq8030_ends chip files cmd with
  | harmless _ hharmless => exact absurd h (hharmless.out m)
  | program _ hend => exact absurd (hstop hend h) List.not_mem_nil
  | eeprom hflash hend₁ hend₂ => exact hprogram hflash hend₁ (hstop hend₂ h)
  | through hflash hend₁ hend₂ hout _ =>
      rw [hout] at h
      rcases hend₂.goes_on with ⟨-, rfl⟩ | ⟨file, husable, htakes, -, hout₂⟩
      · exact hprogram hflash hend₁ h
      · rw [hout₂] at h
        rcases List.mem_append.mp h with h | h
        · exact hprogram hflash hend₁ h
        · obtain rfl : m = .eeprom := by simpa using h
          refine ⟨_, _, file, hflash, ?_, husable, htakes⟩
          rcases hend₁.goes_on with ⟨hnone, rfl⟩ | ⟨file₁, husable₁, htakes₁, hsent₁, -⟩
          · exact .inl ⟨hnone, rfl⟩
          · exact .inr ⟨file₁, husable₁, htakes₁, hsent₁⟩

/-- A memory has one file. -/
theorem Usable.unique {v : BqVars} {m : FlashMemory} {file file' : List Byte}
    (h : Usable files v m file) (h' : Usable files v m file') : file = file' := by
  obtain ⟨name, hname, hfile⟩ := h.input
  obtain ⟨name', hname', hfile'⟩ := h'.input
  obtain rfl := Option.some.inj (hname.symm.trans hname')
  exact Option.some.inj (hfile.symm.trans hfile')

theorem Usable.input_ne {v : BqVars} {m : FlashMemory} {file : List Byte}
    (h : Usable files v m file) : m.input v ≠ none := by
  obtain ⟨name, hname, -⟩ := h.input
  rw [hname]
  exact (Option.some_ne_none name)

theorem Flashes.unique {v v' : BqVars} (h : Flashes chip cmd v) (h' : Flashes chip cmd v') :
    v = v' :=
  Option.some.inj (h.options.symm.trans h'.options)

/-- What was sent when the eeprom is reached. -/
theorem FlashEnd.reached {v : BqVars} {s₁ : ToolState}
    (h : FlashEnd chip files v .program (opened v) true s₁) (before : List Call) :
    Reached chip files v .eeprom before ↔ before = s₁.sent := by
  rcases h.goes_on with ⟨hnone, rfl⟩ | ⟨file, husable, htakes, hsent, -⟩
  · refine ⟨?_, fun hbefore => .inl ⟨hnone, hbefore⟩⟩
    rintro (⟨-, hbefore⟩ | ⟨file, husable, -⟩)
    · exact hbefore
    · exact absurd hnone husable.input_ne
  · refine ⟨?_, fun hbefore => .inr ⟨file, husable, htakes, hbefore.trans hsent⟩⟩
    rintro (⟨hnone, -⟩ | ⟨file', husable', -, hbefore⟩)
    · exact absurd hnone husable.input_ne
    · rw [hbefore, husable'.unique husable]
      exact hsent.symm

/-- The calls of the run around those of a flash, and what is said about it. -/
structure Around (s : ToolState) (m : FlashMemory) (before calls : List Call) : Prop where
  sent : ∃ rest, s.sent = before ++ calls ++ rest ∧ ∀ c ∈ rest, m.Foreign c
  before : ∀ c ∈ before, m.Foreign c
  out : .verified (some m) ∈ s.out

/-- What follows is for another memory. -/
theorem Around.later {s s' : ToolState} {m : FlashMemory} {before calls new : List Call}
    {lines : List Line} (h : Around s m before calls) (hsent : s'.sent = s.sent ++ new)
    (hnew : ∀ c ∈ new, m.Foreign c) (hout : s'.out = s.out ++ lines) :
    Around s' m before calls := by
  obtain ⟨⟨rest, hrest, hforeign⟩, hbefore, hmem⟩ := h
  refine ⟨⟨rest ++ new, by rw [hsent, hrest, List.append_assoc], fun c hc => ?_⟩, hbefore, ?_⟩
  · rcases List.mem_append.mp hc with hc | hc
    · exact hforeign c hc
    · exact hnew c hc
  · rw [hout]
    exact List.mem_append_left lines hmem

/-- The flash of a memory, behind calls that are not for it. -/
theorem FlashEnd.around {v : BqVars} {m : FlashMemory} {s s' : ToolState} {file : List Byte}
    (h : FlashEnd chip files v m s true s') (husable : Usable files v m file)
    (hbefore : ∀ c ∈ s.sent, m.Foreign c) :
    Around s' m s.sent (m.session file (!v.noVerify)) := by
  rcases h.goes_on with ⟨hnone, -⟩ | ⟨file', husable', -, hsent, hout⟩
  · exact absurd hnone husable.input_ne
  · obtain rfl := husable.unique husable'
    refine ⟨⟨[], by rw [hsent, List.append_nil], fun _ hc => absurd hc List.not_mem_nil⟩,
      hbefore, ?_⟩
    rw [hout]
    exact List.mem_append_right _ (List.mem_singleton.mpr rfl)

/-- A memory that is flashed to the end is said to be verified. -/
theorem FlashDone.around {v : BqVars} {m : FlashMemory} {before : List Call} {file : List Byte}
    (h : FlashDone chip files cmd v m before file) :
    Around (bq8030flasher chip files cmd) m before (m.session file (!v.noVerify)) := by
  obtain ⟨hflash, hreached, husable, htakes⟩ := h
  cases bq8030_ends chip files cmd with
  | harmless hno _ => exact absurd hflash (hno v)
  | program hflash' hend =>
      obtain rfl := hflash.unique hflash'
      obtain ⟨⟨name, hname⟩, hno, -⟩ := hend.stops
      cases m with
      | program =>
          obtain rfl : before = opening v := hreached
          exact absurd htakes (hno file husable)
      | eeprom =>
          rcases hreached with ⟨hnone, -⟩ | ⟨file₁, husable₁, htakes₁, -⟩
          · exact absurd (hname.symm.trans hnone) (Option.some_ne_none name)
          · exact absurd htakes₁ (hno file₁ husable₁)
  | eeprom hflash' hend₁ hend₂ =>
      obtain rfl := hflash.unique hflash'
      obtain ⟨-, hno, line, hout, -⟩ := hend₂.stops
      obtain ⟨new, hsent, hnew⟩ := hend₂.uses
      cases m with
      | program =>
          obtain rfl : before = opening v := hreached
          exact (hend₁.around husable (foreign_opening v _)).later hsent
            (fun c hc => (hnew c hc).foreign (by decide)) hout
      | eeprom =>
          obtain rfl := (hend₁.reached before).mp hreached
          exact absurd htakes (hno file husable)
  | through hflash' hend₁ hend₂ hout hsent =>
      obtain rfl := hflash.unique hflash'
      obtain ⟨calls, hsent, hcalls⟩ := hsent
      have hexecute : ∀ c ∈ calls, m.Foreign c := fun c hc => hcalls c hc ▸ foreign_execute m
      have hsame : (bq8030flasher chip files cmd).out = _ ++ [] :=
        hout.trans (List.append_nil _).symm
      refine Around.later ?_ hsent hexecute hsame
      cases m with
      | program =>
          obtain rfl : before = opening v := hreached
          obtain ⟨new, hsent₂, hnew⟩ := hend₂.uses
          obtain ⟨lines, hlines⟩ := hend₂.lines
          exact (hend₁.around husable (foreign_opening v _)).later hsent₂
            (fun c hc => (hnew c hc).foreign (by decide)) hlines
      | eeprom =>
          obtain rfl := (hend₁.reached before).mp hreached
          refine hend₂.around husable fun c hc => ?_
          obtain ⟨new, hsent₁, hnew⟩ := hend₁.uses
          rw [hsent₁] at hc
          rcases List.mem_append.mp hc with hc | hc
          · exact foreign_opening v _ c hc
          · exact (hnew c hc).foreign (by decide)

end

/-! ## The exact condition -/

/-- Two ways to split a list at an element that stands in it once. -/
theorem append_cons_unique {A : Type} {a b t u : List A} {x : A} (h : a ++ x :: t = b ++ x :: u)
    (hb : x ∉ b) (hu : x ∉ u) : a = b := by
  induction a generalizing b with
  | nil =>
      cases b with
      | nil => rfl
      | cons y b =>
          rw [List.nil_append, List.cons_append] at h
          exact absurd (List.cons.inj h).1 fun hxy => hb (hxy ▸ List.mem_cons_self)
  | cons y a ih =>
      cases b with
      | nil =>
          rw [List.nil_append, List.cons_append] at h
          obtain ⟨-, htail⟩ := List.cons.inj h
          exact absurd (htail ▸ List.mem_append_right a List.mem_cons_self) hu
      | cons z b =>
          rw [List.cons_append, List.cons_append] at h
          obtain ⟨rfl, htail⟩ := List.cons.inj h
          rw [ih htail fun hx => hb (List.mem_cons_of_mem y hx)]

/-- The calls that read all blocks, from one of them on. -/
theorem reads_add (m : FlashMemory) (k n : Nat) : m.reads (k + n) = m.reads k ++
    (List.range n).flatMap fun i => [m.setCall (k + i), m.readCall] := by
  simp only [FlashMemory.reads, List.range_add, List.flatMap_append, List.flatMap_map]

theorem reads_isPrefix (m : FlashMemory) {k n : Nat} (h : k ≤ n) : m.reads k <+: m.reads n := by
  obtain ⟨l, rfl⟩ := Nat.exists_eq_add_of_le h
  exact ⟨_, (reads_add m k l).symm⟩

/-- A block of the eeprom is set once. -/
theorem setEeprom_once {i : Nat} (hi : i < FlashMemory.eeprom.blockCount) :
    FlashMemory.eeprom.setCall i ∉ FlashMemory.eeprom.reads i ∧
      ∃ after, FlashMemory.eeprom.reads FlashMemory.eeprom.blockCount =
        FlashMemory.eeprom.reads i ++ FlashMemory.eeprom.setCall i :: after ∧
        FlashMemory.eeprom.setCall i ∉ after := by
  have hother : ∀ j < FlashMemory.eeprom.blockCount, j ≠ i →
      FlashMemory.eeprom.setCall i ∉
        [FlashMemory.eeprom.setCall j, FlashMemory.eeprom.readCall] := by
    intro j hj hne hmem
    rcases List.mem_cons.mp hmem with hset | hread
    · exact hne (setEeprom_inj hi hj hset).symm
    · exact Call.noConfusion (List.mem_singleton.mp hread)
  refine ⟨fun hmem => ?_, FlashMemory.eeprom.readCall ::
    (List.range (FlashMemory.eeprom.blockCount - (i + 1))).flatMap
      (fun j => [FlashMemory.eeprom.setCall (i + 1 + j), FlashMemory.eeprom.readCall]),
    ?_, fun hmem => ?_⟩
  · obtain ⟨j, hj, hmem⟩ := List.mem_flatMap.mp hmem
    have hj := List.mem_range.mp hj
    exact hother j (by omega) (by omega) hmem
  · have hcount : FlashMemory.eeprom.blockCount =
        i + 1 + (FlashMemory.eeprom.blockCount - (i + 1)) := by omega
    rw [hcount, reads_add, FlashMemory.reads_succ, List.append_assoc, ← hcount]
    rfl
  · rcases List.mem_cons.mp hmem with hread | hmem
    · exact Call.noConfusion hread
    · obtain ⟨j, hj, hmem⟩ := List.mem_flatMap.mp hmem
      have hj := List.mem_range.mp hj
      exact hother (i + 1 + j) (by omega) (by omega) hmem

section

variable {chip : Chip} {files : Files} {cmd : CommandLine BqOption} {v : BqVars}
  {m : FlashMemory} {before : List Call} {file : List Byte}

/-- Without a verification nothing is read back. -/
theorem FlashDone.readCall_not_mem (h : FlashDone chip files cmd v m before file)
    (hverify : v.noVerify = true) : m.readCall ∉ (bq8030flasher chip files cmd).sent := by
  obtain ⟨⟨rest, hsent, hrest⟩, hbefore, -⟩ := h.around
  intro hmem
  rw [hsent, hverify] at hmem
  rcases List.mem_append.mp hmem with hmem | hmem
  · rcases List.mem_append.mp hmem with hmem | hmem
    · exact (hbefore _ hmem).1 rfl
    · refine (foreign_writes m file _ ?_).1 rfl
      simpa [FlashMemory.session] using hmem
  · exact (hrest _ hmem).1 rfl

/-- The calls of a run that verifies what it flashed. -/
theorem FlashDone.sent (h : FlashDone chip files cmd v m before file)
    (hverify : v.noVerify = false) : ∃ rest, (bq8030flasher chip files cmd).sent =
      before ++ [m.erase] ++ m.writes file m.blockCount ++ m.reads m.blockCount ++ rest ∧
        ∀ c ∈ rest, m.Foreign c := by
  obtain ⟨⟨rest, hsent, hrest⟩, -, -⟩ := h.around
  refine ⟨rest, ?_, hrest⟩
  rw [hsent, hverify]
  simp [FlashMemory.session]

/-- A block of the eeprom is read back where it is set. -/
theorem FlashDone.readBack_eeprom (h : FlashDone chip files cmd v .eeprom before file)
    (hverify : v.noVerify = false) {i : Nat} (hi : i < FlashMemory.eeprom.blockCount)
    {data : List Byte}
    (hread : ReadBack chip .eeprom (bq8030flasher chip files cmd).sent i data) :
    (chip.block (before ++ [FlashMemory.eeprom.erase] ++
      FlashMemory.eeprom.writes file FlashMemory.eeprom.blockCount ++
        FlashMemory.eeprom.reads (i + 1))).Gives data := by
  obtain ⟨b, hprefix, -, hblock⟩ := hread
  obtain ⟨rest, hsent, hrest⟩ := h.sent hverify
  obtain ⟨honce, after, hreads, hafter⟩ := setEeprom_once hi
  obtain ⟨t, ht⟩ := hprefix
  have hsplit : b ++ FlashMemory.eeprom.setCall i :: (FlashMemory.eeprom.readCall :: t) =
      (before ++ [FlashMemory.eeprom.erase] ++
        FlashMemory.eeprom.writes file FlashMemory.eeprom.blockCount ++
          FlashMemory.eeprom.reads i) ++ FlashMemory.eeprom.setCall i :: (after ++ rest) := by
    rw [hsent, hreads] at ht
    simpa only [List.append_assoc, List.cons_append, List.nil_append] using ht
  have hb := append_cons_unique hsplit (fun hmem => ?_) fun hmem => ?_
  · rw [FlashMemory.reads_succ, ← List.append_assoc, ← hb]
    exact hblock
  · rcases List.mem_append.mp hmem with hmem | hmem
    · rw [List.append_assoc] at hmem
      rcases List.mem_append.mp hmem with hmem | hmem
      · exact (h.around.before _ hmem).2 i rfl
      · exact (foreign_writes .eeprom file _ hmem).2 i rfl
    · exact honce hmem
  · rcases List.mem_append.mp hmem with hmem | hmem
    · exact hafter hmem
    · exact (hrest _ hmem).2 i rfl

/-- A memory that was verified block by block was read back, where the chip answers the file. -/
theorem FlashDone.readBack (h : FlashDone chip files cmd v m before file)
    (hverify : v.noVerify = false) {i : Nat} (hi : i < m.blockCount)
    (hblock : (chip.block (before ++ [m.erase] ++ m.writes file m.blockCount ++
      m.reads (i + 1))).Gives (fileBlock m.blockSize file i)) :
    ReadBack chip m (bq8030flasher chip files cmd).sent i (fileBlock m.blockSize file i) := by
  obtain ⟨rest, hsent, -⟩ := h.sent hverify
  have hreads : before ++ [m.erase] ++ m.writes file m.blockCount ++ m.reads i ++
      m.setCall i :: [m.readCall] =
        before ++ [m.erase] ++ m.writes file m.blockCount ++ m.reads (i + 1) := by
    rw [m.reads_succ, ← List.append_assoc]
  refine ⟨before ++ [m.erase] ++ m.writes file m.blockCount ++ m.reads i, ?_, ?_, ?_⟩
  · rw [hreads, hsent]
    refine List.IsPrefix.trans ?_ (List.prefix_append _ rest)
    exact (List.prefix_append_right_inj _).mpr (reads_isPrefix m hi)
  · refine List.mem_append_left _ (List.mem_append_right _ ?_)
    exact List.mem_map.mpr ⟨i, List.mem_range.mpr hi, rfl⟩
  · rw [hreads]
    exact hblock

/-- The program flash is compared whole. -/
theorem FlashDone.block_program (h : FlashDone chip files cmd v .program before file)
    (hverify : v.noVerify = false) {i : Nat} (hi : i < FlashMemory.program.blockCount) :
    (chip.block (before ++ [FlashMemory.program.erase] ++
      FlashMemory.program.writes file FlashMemory.program.blockCount ++
        FlashMemory.program.reads (i + 1))).Gives
      (fileBlock FlashMemory.program.blockSize file i) := by
  obtain ⟨-, hstatus, hsame⟩ := h.takes.reads (by rw [hverify]; rfl) i hi
  have hcompared : FlashMemory.program.compared = FlashMemory.program.blockSize := rfl
  rw [hcompared, fileBlock, List.take_take, Nat.min_self] at hsame
  rw [fileBlock, hsame]
  exact BlockAnswer.gives_take hstatus

end

/-- `Verified OK!` is true if and only if nothing is flashed to the end without being verified,
and what is read back from the eeprom is the file. -/
theorem verifiedSound_iff (chip : Chip) (files : Files) (cmd : CommandLine BqOption) :
    VerifiedSound chip files cmd ↔
      ∀ v m before file, FlashDone chip files cmd v m before file → v.noVerify = false ∧
        (m = .eeprom → ∀ i < m.blockCount,
          (chip.block (before ++ [m.erase] ++ m.writes file m.blockCount ++ m.reads (i + 1))).Gives
            (fileBlock m.blockSize file i)) := by
  constructor
  · intro h v m before file hdone
    obtain ⟨v', name, file', hoptions, hname, hfile, hread⟩ := h m hdone.around.out
    obtain rfl := Option.some.inj (hoptions.symm.trans hdone.flashes.options)
    obtain ⟨name', hname', hfile'⟩ := hdone.usable.input
    obtain rfl := Option.some.inj (hname.symm.trans hname')
    obtain rfl := Option.some.inj (hfile.symm.trans hfile')
    have hverify : v'.noVerify = false := by
      refine Bool.eq_false_iff.mpr fun hverify => hdone.readCall_not_mem hverify ?_
      obtain ⟨b, hprefix, -, -⟩ := hread 0 (by cases m <;> decide)
      exact hprefix.mem (List.mem_append_right b (List.mem_cons_of_mem _ List.mem_cons_self))
    refine ⟨hverify, ?_⟩
    rintro rfl i hi
    exact hdone.readBack_eeprom hverify hi (hread i hi)
  · intro h m hmem
    obtain ⟨v, before, file, hdone⟩ := flashDone_of_verified hmem
    obtain ⟨hverify, heeprom⟩ := h v m before file hdone
    obtain ⟨name, hname, hfile⟩ := hdone.usable.input
    refine ⟨v, name, file, hdone.flashes.options, hname, hfile, fun i hi => ?_⟩
    refine hdone.readBack hverify hi ?_
    cases m with
    | program => exact hdone.block_program hverify hi
    | eeprom => exact heeprom rfl i hi

/-- A chip that accepts everything, and whose memories read as erased. -/
def erasedChip : Chip where
  status := fun _ => 33
  errno := fun _ => 0
  block := fun _ => .read (List.replicate 32 0xFF)
  received := fun _ => []

/-- The eeprom is said to be verified while it is empty. -/
theorem not_verifiedSound_eeprom : ¬ VerifiedSound erasedChip
    ⟨fun _ => some (List.replicate 2048 0), fun _ => false⟩ ⟨4, [.confirmDelete, .w ['f']]⟩ := by
  intro h
  obtain ⟨v, name, file, -, -, hfile, hread⟩ := h .eeprom (by decide +kernel)
  obtain rfl := Option.some.inj hfile
  obtain ⟨before, -, -, hblock⟩ := hread 0 (by decide)
  have hread : (BlockAnswer.read (List.replicate 32 0xFF)).Gives
      (fileBlock FlashMemory.eeprom.blockSize (List.replicate 2048 0) 0) := hblock
  exact absurd hread.take (by decide +kernel)

end Smbusb
