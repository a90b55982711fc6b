import Smbusb.Tools.Bq8030Verify

/-!
# The files of smbusb_bq8030flasher

Which file an option names, and for which memory.

*The usage text.*  `FlashMemory.flashArg` and `FlashMemory.saveArg` say what `printUsage` says:
`-f` and `--flash-program` name the file that is flashed to the program flash, `-w` and
`--flash-eeprom` the one for the eeprom, and likewise for the files that are saved.  The last
option counts.  `documentedRun` is the run of a tool that takes its files this way, and
`NamedOnly` says of a state that nothing else than these files was flashed or saved.

*The source.*  In `long_options` the letters of `--flash-program` and `--flash-eeprom` are
exchanged (`FlashMemory.routedArg`).  So the tool does what is documented if that makes no
difference, or if the run flashes nothing anyway (`routesAsDocumented_iff`).
-/

namespace Smbusb

open Logic Prog Tool Bq8030

/-! ## What the options are for -/

namespace FlashMemory

/-- The file to flash, by the usage text. -/
def flashArg : FlashMemory → BqOption → Option (List Char)
  | program, .f optarg => some optarg
  | program, .flashProgram optarg => some optarg
  | eeprom, .w optarg => some optarg
  | eeprom, .flashEeprom optarg => some optarg
  | _, _ => none

/-- The file to save to, by the usage text. -/
def saveArg : FlashMemory → BqOption → Option (List Char)
  | program, .p optarg => some optarg
  | program, .saveProgram optarg => some optarg
  | eeprom, .e optarg => some optarg
  | eeprom, .saveEeprom optarg => some optarg
  | _, _ => none

/-- The file to flash, by the source. -/
def routedArg : FlashMemory → BqOption → Option (List Char)
  | program, .f optarg => some optarg
  | program, .flashEeprom optarg => some optarg
  | eeprom, .w optarg => some optarg
  | eeprom, .flashProgram optarg => some optarg
  | _, _ => none

/-- The file to save to. -/
def output (v : BqVars) : FlashMemory → Option (List Char)
  | program => v.programOut
  | eeprom => v.eepromOut

end FlashMemory

namespace Bq8030

/-- The argument of the last option that has one. -/
def lastArg (arg : BqOption → Option (List Char)) (opts : List BqOption) : Option (List Char) :=
  (opts.filterMap arg).getLast?

/-- The files the usage text gives the options. -/
def documentedVars (opts : List BqOption) (v : BqVars) : BqVars :=
  { v with
    programIn := lastArg FlashMemory.program.flashArg opts
    eepromIn := lastArg FlashMemory.eeprom.flashArg opts
    programOut := lastArg FlashMemory.program.saveArg opts
    eepromOut := lastArg FlashMemory.eeprom.saveArg opts }

/-- `main`, with the files of the usage text. -/
def documentedRun (chip : Chip) (files : Files) (cmd : CommandLine BqOption) : ToolState :=
  endState (if cmd.argc = 1 then exit 1
    else
      match bqOptions cmd.opts .init with
      | none => exit 0
      | some v => bqRun chip files (documentedVars cmd.opts v)) .init

/-! ## What was flashed and saved -/

section

variable (chip : Chip) (files : Files) (flash save : FlashMemory → Option (List Char))

/-- The call erases the memory, or writes a block of the file to it. -/
def Flashing (m : FlashMemory) (name : List Char) (c : Call) : Prop :=
  c = m.erase ∨ ∃ file i, files.input name = some file ∧ i < m.blockCount ∧
    c = m.writeCall i (fileBlock m.blockSize file i)

/-- Only memories that a file is named for are erased and written, with this file, and what is
saved to a file is what was read from its memory. -/
structure NamedOnly (s : ToolState) : Prop where
  flashed : ∀ c ∈ s.sent, ∀ m : FlashMemory, m.destroys c = true →
    ∃ name, flash m = some name ∧ Flashing files m name c
  saved : ∀ name data, (name, data) ∈ s.saved → ∃ m : FlashMemory, save m = some name ∧
    ∃ before, before ++ [m.readCall] <+: s.sent ∧
      (chip.block (before ++ [m.readCall])).Gives data ∧ data.length = m.blockSize

end

/-- The tool does with its files what the usage text says, for every chip and all files. -/
def RoutesAsDocumented (cmd : CommandLine BqOption) : Prop :=
  ∀ chip files, bq8030flasher chip files cmd = documentedRun chip files cmd ∧
    NamedOnly chip files (fun m => lastArg m.flashArg cmd.opts)
      (fun m => lastArg m.saveArg cmd.opts) (bq8030flasher chip files cmd)

/-! ## The options, one by one -/

section

variable {opts : List BqOption} {v v' : BqVars} {arg : BqOption → Option (List Char)}

theorem lastArg_cons (arg : BqOption → Option (List Char)) (o : BqOption) (opts : List BqOption) :
    lastArg arg (o :: opts) = (lastArg arg opts).or (arg o) := by
  rw [lastArg, lastArg, List.filterMap_cons]
  cases arg o with
  | none => exact (Option.or_none).symm
  | some name => rw [List.getLast?_cons]; cases (opts.filterMap arg).getLast? <;> rfl

theorem lastArg_eq_none : lastArg arg opts = none ↔ ∀ o ∈ opts, arg o = none := by
  rw [lastArg, List.getLast?_eq_none_iff, List.filterMap_eq_nil_iff]

/-- A variable holds the argument of the last option that sets it. -/
theorem bqOptions_name (arg : BqOption → Option (List Char)) (field : BqVars → Option (List Char))
    (hstep : ∀ v o v', bqOption v o = some v' → field v' = (arg o).or (field v))
    (h : bqOptions opts v = some v') : field v' = (lastArg arg opts).or (field v) := by
  induction opts generalizing v with
  | nil =>
      obtain rfl := Option.some.inj h
      rfl
  | cons o opts ih =>
      obtain ⟨w, hw, h⟩ := Option.bind_eq_some_iff.mp h
      rw [ih h, hstep v o w hw, lastArg_cons, Option.or_assoc]

/-- The file that is flashed to a memory. -/
theorem input_bqOptions (m : FlashMemory) (h : bqOptions opts .init = some v) :
    m.input v = lastArg m.routedArg opts := by
  have hname := bqOptions_name m.routedArg m.input (fun v o v' h => ?_) h
  · rw [hname]
    cases m <;> exact Option.or_none
  · cases m <;> cases o <;> first
      | (obtain rfl := Option.some.inj h; rfl)
      | exact absurd h.symm (Option.some_ne_none v')

/-- The file that a memory is saved to. -/
theorem output_bqOptions (m : FlashMemory) (h : bqOptions opts .init = some v) :
    m.output v = lastArg m.saveArg opts := by
  have hname := bqOptions_name m.saveArg (m.output ·) (fun v o v' h => ?_) h
  · rw [hname]
    cases m <;> exact Option.or_none
  · cases m <;> cases o <;> first
      | (obtain rfl := Option.some.inj h; rfl)
      | exact absurd h.symm (Option.some_ne_none v')

/-- The options are taken unless one of them is unknown. -/
theorem bqOptions_eq_none : bqOptions opts v = none ↔ .unknown ∈ opts := by
  induction opts generalizing v with
  | nil => simp [bqOptions]
  | cons o opts ih =>
      rw [bqOptions, Option.bind_eq_none_iff, List.mem_cons]
      cases o with
      | unknown => exact ⟨fun _ => .inl rfl, fun _ w hw => absurd hw.symm (Option.some_ne_none w)⟩
      | _ => simp [bqOption, BqOption.code, ih]

theorem confirmDelete_bqOptions (h : bqOptions opts v = some v') :
    v'.confirmDelete = true ↔ .confirmDelete ∈ opts ∨ v.confirmDelete = true := by
  induction opts generalizing v with
  | nil =>
      obtain rfl := Option.some.inj h
      simp
  | cons o opts ih =>
      obtain ⟨w, hw, h⟩ := Option.bind_eq_some_iff.mp h
      rw [ih h, List.mem_cons]
      cases o with
      | unknown => exact absurd hw.symm (Option.some_ne_none w)
      | _ =>
          obtain rfl := Option.some.inj hw
          simp

/-! ## The documented run -/

/-- The option as the usage text has it: a long option is its short one. -/
def asDocumented : BqOption → BqOption
  | .flashProgram optarg => .f optarg
  | .flashEeprom optarg => .w optarg
  | o => o

/-- The command line that says to the source what the usage text says. -/
def documented (cmd : CommandLine BqOption) : CommandLine BqOption :=
  ⟨cmd.argc, cmd.opts.map asDocumented⟩

/-- The variables with other files to flash. -/
def withInputs (v : BqVars) (programIn eepromIn : Option (List Char)) : BqVars :=
  { v with programIn, eepromIn }

theorem withInputs_self {v : BqVars} {programIn eepromIn : Option (List Char)}
    (hprogram : v.programIn = programIn) (heeprom : v.eepromIn = eepromIn) :
    withInputs v programIn eepromIn = v := by
  subst hprogram heeprom
  rfl

theorem bqOption_asDocumented (v : BqVars) (programIn eepromIn : Option (List Char))
    (o : BqOption) : bqOption (withInputs v programIn eepromIn) (asDocumented o) =
      (bqOption v o).map fun v' => withInputs v' ((FlashMemory.program.flashArg o).or programIn)
        ((FlashMemory.eeprom.flashArg o).or eepromIn) := by
  cases o <;> rfl

theorem bqOptions_asDocumented (programIn eepromIn : Option (List Char)) :
    bqOptions (opts.map asDocumented) (withInputs v programIn eepromIn) =
      (bqOptions opts v).map fun v' =>
        withInputs v' ((lastArg FlashMemory.program.flashArg opts).or programIn)
          ((lastArg FlashMemory.eeprom.flashArg opts).or eepromIn) := by
  induction opts generalizing v programIn eepromIn with
  | nil => rfl
  | cons o opts ih =>
      rw [List.map_cons, bqOptions, bqOption_asDocumented, bqOptions]
      cases bqOption v o with
      | none => rfl
      | some w =>
          rw [Option.map_some, Option.bind_some, Option.bind_some, ih]
          simp only [lastArg_cons, Option.or_assoc]

/-- The files to save to are documented. -/
theorem documentedVars_eq (h : bqOptions opts .init = some v) :
    documentedVars opts v = withInputs v (lastArg FlashMemory.program.flashArg opts)
      (lastArg FlashMemory.eeprom.flashArg opts) := by
  have hprogram : v.programOut = lastArg FlashMemory.program.saveArg opts :=
    output_bqOptions .program h
  have heeprom : v.eepromOut = lastArg FlashMemory.eeprom.saveArg opts :=
    output_bqOptions .eeprom h
  rw [documentedVars, ← hprogram, ← heeprom]
  rfl

/-- The options of the usage text set its files. -/
theorem bqOptions_documented :
    bqOptions (opts.map asDocumented) .init =
      (bqOptions opts .init).map (documentedVars opts) := by
  have h := @bqOptions_asDocumented opts .init none none
  rw [Option.or_none, Option.or_none] at h
  exact h.trans (Option.map_congr fun v hv => (documentedVars_eq hv).symm)

theorem documentedRun_eq (chip : Chip) (files : Files) (cmd : CommandLine BqOption) :
    documentedRun chip files cmd = bq8030flasher chip files (documented cmd) := by
  rw [documentedRun, bq8030flasher, main, documented, bqOptions_documented]
  cases bqOptions cmd.opts .init <;> rfl

end

/-! ## A run flashes and saves what is named -/

section

variable {chip : Chip} {files : Files} {flash save : FlashMemory → Option (List Char)}
  {s : ToolState}

theorem NamedOnly.call (h : NamedOnly chip files flash save s) {c : Call}
    (hc : ∀ m : FlashMemory, m.destroys c = true →
      ∃ name, flash m = some name ∧ Flashing files m name c) :
    NamedOnly chip files flash save { s with sent := s.sent ++ [c] } := by
  refine ⟨fun c' hc' m hdestroys => ?_, fun name data hsaved => ?_⟩
  · rcases List.mem_append.mp hc' with hc' | hc'
    · exact h.flashed c' hc' m hdestroys
    · obtain rfl := List.mem_singleton.mp hc'
      exact hc m hdestroys
  · obtain ⟨m, hname, before, hprefix, hdata⟩ := h.saved name data hsaved
    exact ⟨m, hname, before, hprefix.trans (List.prefix_append _ _), hdata⟩

/-- A call that neither erases nor writes. -/
theorem NamedOnly.callOther (h : NamedOnly chip files flash save s) {c : Call}
    (hc : ∀ m : FlashMemory, m.destroys c = false) :
    NamedOnly chip files flash save { s with sent := s.sent ++ [c] } :=
  h.call fun m hdestroys => absurd hdestroys (Bool.eq_false_iff.mp (hc m))

/-- A call that flashes the file of a memory. -/
theorem NamedOnly.callFlashing (h : NamedOnly chip files flash save s) {m : FlashMemory}
    {name : List Char} {c : Call} (hname : flash m = some name) (huses : m.Uses c)
    (hc : Flashing files m name c) :
    NamedOnly chip files flash save { s with sent := s.sent ++ [c] } :=
  h.call fun m' hdestroys => by
    obtain rfl := huses.destroys hdestroys
    exact ⟨name, hname, hc⟩

theorem NamedOnly.print (h : NamedOnly chip files flash save s) (lines : List Line) :
    NamedOnly chip files flash save { s with out := lines } := ⟨h.flashed, h.saved⟩

/-- Nothing is flashed or saved yet. -/
theorem namedOnly_of_harmless (h : Harmless s) (hsaved : s.saved = []) :
    NamedOnly chip files flash save s := by
  refine ⟨fun c hc m hdestroys => absurd hdestroys (Bool.eq_false_iff.mp (h.sent c hc m)), ?_⟩
  intro name data hmem
  rw [hsaved] at hmem
  exact absurd hmem List.not_mem_nil

variable (m : FlashMemory) {name : List Char} {file : List Byte}

/-- What is saved is what was read. -/
theorem wp_bqSave_named (h : NamedOnly chip files flash save s) :
    wp (bqSave files m.blockSize m.blockCount (m.readBlock chip) (save m))
      (fun _ => NamedOnly chip files flash save) (fun _ => NamedOnly chip files flash save) s := by
  refine wp_bqSave m (fun _ i h => h.callOther fun m' => m.destroys_setCall m' i)
    (fun _ h => h.callOther m.destroys_readCall) (fun _ _ _ h => h.print _) ?_ h
  intro s before name data hs hname hsent hblock hlen
  refine ⟨hs.flashed, fun name' data' hsaved => ?_⟩
  rcases List.mem_append.mp hsaved with hsaved | hsaved
  · exact hs.saved name' data' hsaved
  · obtain ⟨rfl, rfl⟩ := Prod.mk.inj (List.mem_singleton.mp hsaved)
    rw [hsent] at hblock
    exact ⟨m, hname, before, hsent ▸ List.prefix_refl _, hblock, hlen⟩

/-- The blocks that are written are those of the file. -/
theorem wp_flashBlocks_named (hname : flash m = some name) (hfile : files.input name = some file)
    (h : NamedOnly chip files flash save s) :
    wp (flashBlocks m.blockSize m.blockCount file (m.writeBlock chip))
      (fun _ => NamedOnly chip files flash save) (fun _ => NamedOnly chip files flash save) s := by
  rw [flashBlocks]
  refine wp_forUpTo (fun _ => NamedOnly chip files flash save) (fun i _ hi s hs => ?_)
    (fun _ h => h) h
  rw [Nat.zero_add] at hi
  have hwrite := hs.callFlashing hname (.write i (fileBlock m.blockSize file i))
    (.inr ⟨file, i, hfile, hi, rfl⟩)
  simp only [wp_bind, wp_writeBlock, wp_ite, wp_print, wp_exit, wp_pure]
  split
  · exact hwrite.print _
  · exact hwrite

theorem wp_verifyBlocks_named (h : NamedOnly chip files flash save s) :
    wp (verifyBlocks m.blockSize m.blockCount m.compared file (m.readBlock chip))
      (fun _ => NamedOnly chip files flash save) (fun _ => NamedOnly chip files flash save) s := by
  rw [verifyBlocks]
  refine wp_forUpTo (fun _ => NamedOnly chip files flash save) (fun i _ _ s hs => ?_)
    (fun _ h => h) h
  have hset := hs.callOther fun m' => m.destroys_setCall m' i
  have hread := hset.callOther fun m' => m.destroys_readCall m'
  simp only [wp_bind, wp_readBlock, wp_ite, wp_print, wp_exit, wp_pure]
  split
  · split
    · exact hread.print _
    · split
      · exact hread
      · exact hread.print _
  · rw [if_pos (BlockAnswer.failed_status 0 _)]
    exact hset.print _

/-- What follows when the memory is erased and the file is open. -/
theorem wp_flash_named (hname : flash m = some name) (hfile : files.input name = some file)
    (verify : Bool) (h : NamedOnly chip files flash save s) :
    wp (flashBlocks m.blockSize m.blockCount file (m.writeBlock chip)) (fun _ s' =>
      if verify = true then
        wp (verifyBlocks m.blockSize m.blockCount m.compared file (m.readBlock chip)) (fun _ s' =>
          NamedOnly chip files flash save { s' with out := s'.out ++ [.verified (some m)] })
            (fun _ => NamedOnly chip files flash save) s'
      else NamedOnly chip files flash save { s' with out := s'.out ++ [.verified (some m)] })
      (fun _ => NamedOnly chip files flash save) s := by
  refine wp_mono (wp_flashBlocks_named m hname hfile h) (fun _ s hs => ?_) fun _ _ h => h
  cases verify with
  | false => exact hs.print _
  | true =>
      rw [if_pos rfl]
      exact wp_mono (wp_verifyBlocks_named m hs) (fun _ s hs => hs.print _) fun _ _ h => h

variable {v : BqVars}

theorem wp_flashProgram_named (hflash : flash .program = v.programIn)
    (h : NamedOnly chip files flash save s) :
    wp (flashProgram chip files v) (fun _ => NamedOnly chip files flash save)
      (fun _ => NamedOnly chip files flash save) s := by
  rw [flashProgram]
  split
  · exact h
  · next name hname =>
    simp only [wp_ite, wp_bind, wp_print, wp_exit]
    split
    · exact h.print _
    · have herase := h.callFlashing (m := .program) (hflash.trans hname) .erase (.inl rfl)
      simp only [eraseProgramFlash, wp_bind, wp_call, wp_pure, wp_openSized]
      split
      · exact herase.print _
      · next file hfile =>
        split
        · exact herase.print _
        · exact wp_flash_named .program (hflash.trans hname) hfile (!v.noVerify) herase

theorem wp_flashEeprom_named (hflash : flash .eeprom = v.eepromIn)
    (h : NamedOnly chip files flash save s) :
    wp (flashEeprom chip files v) (fun _ => NamedOnly chip files flash save)
      (fun _ => NamedOnly chip files flash save) s := by
  rw [flashEeprom]
  split
  · exact h
  · next name hname =>
    simp only [wp_ite, wp_bind, wp_print, wp_exit]
    split
    · exact h.print _
    · rw [wp_openSized]
      split
      · exact h.print _
      · next file hfile =>
        split
        · exact h.print _
        · have herase := h.callFlashing (m := .eeprom) (hflash.trans hname) .erase (.inl rfl)
          simp only [eraseEepromFlash, wp_bind, wp_call, wp_pure]
          exact wp_flash_named .eeprom (hflash.trans hname) hfile (!v.noVerify) herase

/-- A run flashes and saves the files of its variables. -/
theorem wp_bqRun_named : wp (bqRun chip files v)
    (fun _ => NamedOnly chip files (fun m => m.input v) fun m => m.output v)
    (fun _ => NamedOnly chip files (fun m => m.input v) fun m => m.output v) .init := by
  rw [bqRun, wp_bind]
  refine wp_bqOpen (fun _ => ?_) fun _ s _ h hsaved => namedOnly_of_harmless h hsaved
  have h : NamedOnly chip files (fun m => m.input v) (fun m => m.output v) ⟨opening v, [], []⟩ :=
    namedOnly_of_harmless (harmless_opening v 4) rfl
  rw [wp_bind]
  refine wp_mono (wp_bqSave_named .program h) (fun _ s h => ?_) fun _ _ h => h
  rw [wp_bind]
  refine wp_mono (wp_bqSave_named .eeprom h) (fun _ s h => ?_) fun _ _ h => h
  rw [wp_bind]
  refine wp_mono (wp_flashProgram_named rfl h) (fun _ s h => ?_) fun _ _ h => h
  rw [wp_bind]
  refine wp_mono (wp_flashEeprom_named rfl h) (fun _ s h => ?_) fun _ _ h => h
  simp only [wp_ite, wp_bind, wp_call, wp_pure]
  split
  · exact h.callOther fun m => by cases m <;> rfl
  · exact h

end

/-- The documented run flashes and saves the documented files. -/
theorem namedOnly_documentedRun (chip : Chip) (files : Files) (cmd : CommandLine BqOption) :
    NamedOnly chip files (fun m => lastArg m.flashArg cmd.opts)
      (fun m => lastArg m.saveArg cmd.opts) (documentedRun chip files cmd) := by
  refine endState_of_wp ?_
  split
  · exact namedOnly_of_harmless harmless_init rfl
  · cases bqOptions cmd.opts .init with
    | none => exact namedOnly_of_harmless harmless_init rfl
    | some v =>
        have hflash : (fun m : FlashMemory => lastArg m.flashArg cmd.opts) =
            fun m => m.input (documentedVars cmd.opts v) := by
          funext m
          cases m <;> rfl
        have hsave : (fun m : FlashMemory => lastArg m.saveArg cmd.opts) =
            fun m => m.output (documentedVars cmd.opts v) := by
          funext m
          cases m <;> rfl
        rw [hflash, hsave]
        exact wp_bqRun_named

/-! ## Runs that flash nothing -/

/-- The run ends before it flashes anything, or the letters that are exchanged make no
difference. -/
def RoutingAgrees (cmd : CommandLine BqOption) : Prop :=
  cmd.argc = 1 ∨ .unknown ∈ cmd.opts ∨ .confirmDelete ∉ cmd.opts ∨
    (∃ m : FlashMemory, lastArg m.saveArg cmd.opts ≠ none) ∨
      ∀ m : FlashMemory, lastArg m.routedArg cmd.opts = lastArg m.flashArg cmd.opts

section

variable {chip : Chip} {files : Files} {v : BqVars} {opts : List BqOption}

/-- A file for either memory is named. -/
def AnyInput (v : BqVars) : Prop := v.programIn ≠ none ∨ v.eepromIn ≠ none

/-- The usage text and the source name a file in the same runs. -/
theorem anyInput_documentedVars (h : bqOptions opts .init = some v) :
    AnyInput (documentedVars opts v) ↔ AnyInput v := by
  have hprogram : v.programIn = lastArg FlashMemory.program.routedArg opts :=
    input_bqOptions .program h
  have heeprom : v.eepromIn = lastArg FlashMemory.eeprom.routedArg opts :=
    input_bqOptions .eeprom h
  rw [AnyInput, AnyInput, hprogram, heeprom, documentedVars, ← not_and_or, ← not_and_or,
    not_iff_not, lastArg_eq_none, lastArg_eq_none, lastArg_eq_none, lastArg_eq_none,
    ← forall₂_and, ← forall₂_and]
  refine forall₂_congr fun o _ => ?_
  cases o <;> simp [FlashMemory.flashArg, FlashMemory.routedArg]

/-- A run that is to save and to flash does neither. -/
theorem bqRun_bothWays (hsave : v.programOut ≠ none ∨ v.eepromOut ≠ none) (hflash : AnyInput v) :
    bqRun chip files v = (do print .bothWays; exit 1) := by
  have hboth : ((v.programOut.isSome || v.eepromOut.isSome) &&
      (v.programIn.isSome || v.eepromIn.isSome)) = true := by
    simp only [Bool.and_eq_true, Bool.or_eq_true, Option.isSome_iff_ne_none]
    exact ⟨hsave, hflash⟩
  rw [bqRun, bqOpen, if_pos hboth]
  rfl

/-- A run without `--confirm-delete` flashes nothing. -/
theorem bqRun_unconfirmed (hconfirm : v.confirmDelete = false) (hflash : AnyInput v) :
    bqRun chip files v = (do
      bqOpen chip v
      bqSave files programBlockSz programBlockCount (readProgramBlock chip) v.programOut
      bqSave files eepromBlockSz eepromBlockCount (readEepromBlock chip) v.eepromOut
      print .confirm
      exit 0) := by
  rw [bqRun, flashProgram, flashEeprom]
  cases hprogram : v.programIn with
  | some name =>
      simp only [hconfirm]
      rfl
  | none =>
      cases heeprom : v.eepromIn with
      | some name =>
          simp only [hconfirm]
          rfl
      | none => exact absurd hflash (by simp [AnyInput, hprogram, heeprom])

/-- What is done with the device does not depend on the names of the files to flash. -/
theorem bqOpen_withInputs {programIn eepromIn : Option (List Char)}
    (h : AnyInput (withInputs v programIn eepromIn) ↔ AnyInput v) :
    bqOpen chip (withInputs v programIn eepromIn) = bqOpen chip v := by
  have hsome : (programIn.isSome || eepromIn.isSome) =
      (v.programIn.isSome || v.eepromIn.isSome) := by
    rw [Bool.eq_iff_iff]
    simp only [Bool.or_eq_true, Option.isSome_iff_ne_none]
    exact h
  simp only [bqOpen, withInputs, hsome]
  rfl

theorem bqRun_documentedVars {cmd : CommandLine BqOption} (hargs : cmd.argc ≠ 1)
    (h : RoutingAgrees cmd) (hopts : bqOptions cmd.opts .init = some v) :
    bqRun chip files v = bqRun chip files (documentedVars cmd.opts v) := by
  have hany := anyInput_documentedVars hopts
  have hprogram : v.programIn = lastArg FlashMemory.program.routedArg cmd.opts :=
    input_bqOptions .program hopts
  have heeprom : v.eepromIn = lastArg FlashMemory.eeprom.routedArg cmd.opts :=
    input_bqOptions .eeprom hopts
  rw [documentedVars_eq hopts] at hany ⊢
  by_cases hflash : AnyInput v
  · rcases h with h | h | h | ⟨m, h⟩ | h
    · exact absurd h hargs
    · exact absurd (hopts.symm.trans (bqOptions_eq_none.mpr h)) (Option.some_ne_none v)
    · have hconfirm : v.confirmDelete = false := by
        rw [← Bool.not_eq_true, confirmDelete_bqOptions hopts]
        exact not_or.mpr ⟨h, Bool.false_ne_true⟩
      have hconfirm' : ∀ p q, (withInputs v p q).confirmDelete = false := fun _ _ => hconfirm
      rw [bqRun_unconfirmed hconfirm hflash,
        bqRun_unconfirmed (hconfirm' _ _) (hany.mpr hflash), bqOpen_withInputs hany]
      rfl
    · have hsave : v.programOut ≠ none ∨ v.eepromOut ≠ none := by
        rw [← output_bqOptions m hopts] at h
        cases m with
        | program => exact .inl h
        | eeprom => exact .inr h
      have hsave' : ∀ p q, (withInputs v p q).programOut ≠ none ∨
          (withInputs v p q).eepromOut ≠ none := fun _ _ => hsave
      rw [bqRun_bothWays hsave hflash, bqRun_bothWays (hsave' _ _) (hany.mpr hflash)]
    · rw [withInputs_self (hprogram.trans (h .program)) (heeprom.trans (h .eeprom))]
  · have hnone := mt hany.mp hflash
    simp only [AnyInput, withInputs, not_or, not_not] at hflash hnone
    rw [hnone.1, hnone.2, withInputs_self hflash.1 hflash.2]

/-- When the letters make no difference the run is the documented one. -/
theorem run_documented {cmd : CommandLine BqOption} (h : RoutingAgrees cmd) :
    bq8030flasher chip files cmd = documentedRun chip files cmd := by
  rw [bq8030flasher, main, documentedRun]
  by_cases hargs : cmd.argc = 1
  · rw [if_pos hargs, if_pos hargs]
  · rw [if_neg hargs, if_neg hargs]
    cases hopts : bqOptions cmd.opts .init with
    | none => rfl
    | some v =>
        simp only
        rw [bqRun_documentedVars hargs h hopts]

end

/-! ## Telling the files apart -/

/-- A chip that accepts everything, and whose memories read as zeros. -/
def zeroChip : Chip where
  status := fun calls =>
    match calls.getLast? with
    | some (.writeBlock command _) =>
        if command = cmdSetProgramBlockAddress then 3
        else if command = cmdWriteProgramBlock then 0x62
        else 33
    | _ => 33
  errno := fun _ => 0
  block := fun calls =>
    match calls.getLast? with
    | some (.readBlock command) =>
        .read (List.replicate (if command = cmdReadProgramBlock then 0x60 else 0x20) 0)
    | _ => .failed 0
  received := fun _ => []

/-- It goes by the last call. -/
theorem zeroChip_last (before : List Call) (c : Call) :
    zeroChip.status (before ++ [c]) = zeroChip.status [c] ∧
      zeroChip.block (before ++ [c]) = zeroChip.block [c] := by
  simp only [zeroChip, List.getLast?_concat, List.getLast?_singleton, and_self]

/-- As many zeros as the program flash has bytes. -/
def zeros : List Byte := List.replicate FlashMemory.program.flashSize 0

theorem size_zeros : toInt zeros.length = FlashMemory.program.flashSize := by
  rw [zeros, List.length_replicate]
  rfl

theorem fileBlock_zeros {i : Nat} (hi : i < FlashMemory.program.blockCount) :
    fileBlock FlashMemory.program.blockSize zeros i = List.replicate 0x60 0 := by
  simp only [FlashMemory.blockCount, programBlockCount] at hi
  rw [fileBlock, zeros, List.drop_replicate, List.take_replicate]
  simp only [FlashMemory.flashSize, FlashMemory.blockSize, FlashMemory.blockCount, programBlockSz,
    programBlockCount]
  rw [Nat.min_eq_left (by omega)]

/-- The zeros are flashed to the end. -/
theorem takes_zeros (before : List Call) (verify : Bool) :
    Takes zeroChip .program before zeros verify := by
  constructor
  · intro i _
    rw [TakesWrite, FlashMemory.writes_succ, ← List.append_assoc, (zeroChip_last _ _).1]
    rfl
  · intro _ i hi
    have hreads : ∀ l : List Call, zeroChip.block (l ++ FlashMemory.program.reads (i + 1)) =
        .read (List.replicate 0x60 0) := by
      intro l
      have hlast : l ++ FlashMemory.program.reads (i + 1) =
          l ++ FlashMemory.program.reads i ++ [FlashMemory.program.setCall i] ++
            [FlashMemory.program.readCall] := by
        simp [FlashMemory.reads_succ]
      rw [hlast, (zeroChip_last _ _).2]
      rfl
    refine ⟨?_, ?_, ?_⟩
    · rw [(zeroChip_last _ _).1]
      rfl
    · rw [hreads]
      rfl
    · rw [hreads, fileBlock_zeros hi]
      rfl

/-- Files of zeros. -/
def zeroFiles (names : List (List Char)) : Files where
  input := fun name => if name ∈ names then some zeros else none
  output := fun _ => false

section

variable {v : BqVars} {cmd : CommandLine BqOption} {names : List (List Char)}

theorem zeroFiles_input {name : List Char} {file : List Byte} :
    (zeroFiles names).input name = some file ↔ name ∈ names ∧ file = zeros := by
  rw [zeroFiles, Option.ite_none_right_eq_some, Option.some_inj]
  exact and_congr_right fun _ => eq_comm

/-- A command line that flashes all it can. -/
structure FlashesZeros (cmd : CommandLine BqOption) (v : BqVars) : Prop where
  flashes : Flashes zeroChip cmd v
  confirmed : v.confirmDelete = true

theorem usable_zeros (h : FlashesZeros cmd v) {name : List Char} (hname : v.programIn = some name)
    (hmem : name ∈ names) : Usable (zeroFiles names) v .program zeros :=
  ⟨⟨name, hname, zeroFiles_input.mpr ⟨hmem, rfl⟩⟩, h.confirmed, size_zeros⟩

/-- The program flash is said to be verified if its file is there. -/
theorem verified_zeros (h : FlashesZeros cmd v) (name : List Char) :
    .verified (some .program) ∈ (bq8030flasher zeroChip (zeroFiles [name]) cmd).out ↔
      v.programIn = some name := by
  constructor
  · intro hmem
    obtain ⟨v', before, file, hdone⟩ := flashDone_of_verified hmem
    obtain rfl := hdone.flashes.unique h.flashes
    obtain ⟨name', hname', hfile⟩ := hdone.usable.input
    rw [← List.mem_singleton.mp (zeroFiles_input.mp hfile).1]
    exact hname'
  · intro hname
    have hdone : FlashDone zeroChip (zeroFiles [name]) cmd v .program (opening v) zeros :=
      ⟨h.flashes, rfl, usable_zeros h hname (List.mem_singleton.mpr rfl), takes_zeros _ _⟩
    exact hdone.around.out

/-- When the program flash is done, the eeprom's file is too large if it is there. -/
theorem sizeError_zeros (h : FlashesZeros cmd v) (hprogram : ∀ name, v.programIn = some name →
    name ∈ names) : .sizeError ∈ (bq8030flasher zeroChip (zeroFiles names) cmd).out ↔
      ∃ name ∈ names, v.eepromIn = some name := by
  have hlines : ∀ {v'} {s₁ : ToolState},
      FlashEnd zeroChip (zeroFiles names) v' .program (opened v') true s₁ →
      .sizeError ∉ s₁.out := by
    intro v' s₁ hend hmem
    rcases hend.goes_on with ⟨-, rfl⟩ | ⟨file, -, -, -, hout⟩
    · exact List.not_mem_nil hmem
    · rw [hout] at hmem
      exact absurd hmem (by simp [opened])
  have hlarge : ∀ {name file}, (zeroFiles names).input name = some file →
      toInt file.length ≠ FlashMemory.eeprom.flashSize := by
    intro name file hfile
    rw [(zeroFiles_input.mp hfile).2, size_zeros]
    decide
  have hends := bq8030_ends zeroChip (zeroFiles names) cmd
  generalize bq8030flasher zeroChip (zeroFiles names) cmd = s at hends ⊢
  cases hends with
  | harmless hno _ => exact absurd h.flashes (hno v)
  | program hflash hend =>
      obtain rfl := hflash.unique h.flashes
      obtain ⟨⟨name, hname⟩, hno, -⟩ := hend.stops
      exact absurd (takes_zeros _ _) (hno zeros (usable_zeros h hname (hprogram name hname)))
  | eeprom hflash hend₁ hend₂ =>
      obtain rfl := hflash.unique h.flashes
      have hbefore := hlines hend₁
      cases hend₂ with
      | unconfirmed _ hconfirm => exact absurd (hconfirm.symm.trans h.confirmed) Bool.false_ne_true
      | @noFile name hname _ hfile =>
          have hmem : name ∉ names := fun hmem =>
            absurd (hfile.symm.trans (zeroFiles_input.mpr ⟨hmem, rfl⟩)) (by simp)
          simp only [List.mem_append, hbefore, false_or]
          refine iff_of_false (by decide) ?_
          rintro ⟨name', hmem', hname'⟩
          obtain rfl := Option.some.inj (hname.symm.trans hname')
          exact hmem hmem'
      | @wrongSize name _ hname _ hfile _ =>
          refine iff_of_true (List.mem_append_right _ (List.mem_singleton.mpr rfl)) ?_
          exact ⟨name, (zeroFiles_input.mp hfile).1, hname⟩
      | fault _ _ hfile hsize _ _ => exact absurd hsize (hlarge hfile)
  | through hflash hend₁ hend₂ hout _ =>
      obtain rfl := hflash.unique h.flashes
      have hbefore := hlines hend₁
      rw [hout]
      cases hend₂ with
      | skipped hname =>
          refine iff_of_false hbefore ?_
          rintro ⟨name, -, hname'⟩
          exact Option.some_ne_none name (hname'.symm.trans hname)
      | done _ _ hfile hsize _ => exact absurd hsize (hlarge hfile)

end

/-! ## When the tool does what is documented -/

/-- A command line that gets to the flashing, whatever its files are. -/
theorem flashesZeros {cmd : CommandLine BqOption} {v : BqVars} (hargs : cmd.argc ≠ 1)
    (hopts : bqOptions cmd.opts .init = some v) (hconfirm : v.confirmDelete = true)
    (hprogram : v.programOut = none) (heeprom : v.eepromOut = none) : FlashesZeros cmd v := by
  refine ⟨⟨hargs, hopts, ⟨?_, ?_, ?_, ?_⟩, hprogram, heeprom⟩, hconfirm⟩
  · rw [hprogram, heeprom]
    rfl
  · exact Int.natCast_nonneg 33
  · exact show (32 : Int) ≠ 4 by decide
  · exact Int.natCast_pos.mpr (show 0 < 33 by decide)

/-- A name is found out by lists that have the name `p`, with and without it. -/
theorem eq_some_of_mem_lists {A : Type} {a b p : Option A} {x : A}
    (h : ∀ l : List A, (∀ x, p = some x → x ∈ l) →
      ((∃ x ∈ l, a = some x) ↔ ∃ x ∈ l, b = some x)) (ha : a = some x) : b = some x := by
  have hleast := h p.toList fun y hy => Option.mem_toList.mpr hy
  have hmore := h (x :: p.toList) fun y hy => List.mem_cons_of_mem x (Option.mem_toList.mpr hy)
  obtain ⟨y, hy, hb⟩ := hmore.mp ⟨x, List.mem_cons_self, ha⟩
  rcases List.mem_cons.mp hy with rfl | hy
  · exact hb
  · obtain ⟨z, hz, ha'⟩ := hleast.mpr ⟨y, hy, hb⟩
    have hyz : y = z := Option.mem_unique (Option.mem_toList.mp hy) (Option.mem_toList.mp hz)
    have hxz : x = z := Option.some.inj (ha.symm.trans ha')
    rw [hb, hyz, hxz]

theorem eq_of_mem_lists {A : Type} {a b p : Option A}
    (h : ∀ l : List A, (∀ x, p = some x → x ∈ l) →
      ((∃ x ∈ l, a = some x) ↔ ∃ x ∈ l, b = some x)) : a = b :=
  Option.ext fun _ =>
    ⟨eq_some_of_mem_lists h, eq_some_of_mem_lists fun l hl => (h l hl).symm⟩

/-- The tool takes its files as the usage text says exactly if the run ends before it flashes
anything, or the source takes the same files. -/
theorem routesAsDocumented_iff (cmd : CommandLine BqOption) :
    RoutesAsDocumented cmd ↔ RoutingAgrees cmd := by
  constructor
  · intro h
    by_contra hdiffers
    simp only [RoutingAgrees, not_or, not_exists, not_not] at hdiffers
    obtain ⟨hargs, hknown, hconfirm, hsave, hdiffers⟩ := hdiffers
    refine hdiffers ?_
    obtain ⟨v, hopts⟩ := Option.ne_none_iff_exists'.mp (mt bqOptions_eq_none.mp hknown)
    have hconfirm : v.confirmDelete = true := (confirmDelete_bqOptions hopts).mpr (.inl hconfirm)
    have hzeros := flashesZeros hargs hopts hconfirm
      ((output_bqOptions .program hopts).trans (hsave .program))
      ((output_bqOptions .eeprom hopts).trans (hsave .eeprom))
    have hdocumented : FlashesZeros (documented cmd) (documentedVars cmd.opts v) :=
      flashesZeros hargs (by rw [documented, bqOptions_documented, hopts]; rfl) hconfirm
        (hsave .program) (hsave .eeprom)
    have hrun : ∀ files, bq8030flasher zeroChip (zeroFiles files) cmd =
        bq8030flasher zeroChip (zeroFiles files) (documented cmd) := fun files =>
      (h zeroChip (zeroFiles files)).1.trans (documentedRun_eq _ _ _)
    have hprogram : v.programIn = lastArg FlashMemory.program.flashArg cmd.opts := by
      refine Option.ext fun name => ?_
      rw [← verified_zeros hzeros name, hrun]
      exact verified_zeros hdocumented name
    have heeprom : v.eepromIn = lastArg FlashMemory.eeprom.flashArg cmd.opts := by
      refine eq_of_mem_lists (p := v.programIn) fun names hnames => ?_
      rw [← sizeError_zeros hzeros hnames, hrun]
      refine sizeError_zeros hdocumented fun name hname => hnames name ?_
      exact hprogram.trans hname
    intro m
    rw [← input_bqOptions m hopts]
    cases m with
    | program => exact hprogram
    | eeprom => exact heeprom
  · intro h chip files
    have hrun : bq8030flasher chip files cmd = documentedRun chip files cmd := run_documented h
    refine ⟨hrun, ?_⟩
    rw [hrun]
    exact namedOnly_documentedRun chip files cmd

/-- The file of the eeprom is flashed to the program flash. -/
theorem not_routesAsDocumented_flashEeprom :
    ¬ RoutesAsDocumented ⟨3, [.confirmDelete, .flashEeprom "eeprom.bin".toList]⟩ := by
  intro h
  have hzeros : FlashesZeros ⟨3, [.confirmDelete, .flashEeprom "eeprom.bin".toList]⟩
      { BqVars.init with confirmDelete := true, programIn := some "eeprom.bin".toList } :=
    flashesZeros (by decide) rfl rfl rfl rfl
  have hdone : FlashDone zeroChip (zeroFiles ["eeprom.bin".toList]) _ _ .program _ zeros :=
    ⟨hzeros.flashes, rfl, usable_zeros hzeros rfl (List.mem_singleton.mpr rfl), takes_zeros _ _⟩
  obtain ⟨rest, hsent, -⟩ := hdone.around.sent
  obtain ⟨name, hname, -⟩ := (h zeroChip (zeroFiles ["eeprom.bin".toList])).2.flashed
    FlashMemory.program.erase (by rw [hsent]; simp [FlashMemory.session]) .program
    (FlashMemory.destroys_erase .program)
  exact Option.some_ne_none name hname.symm

end Bq8030

end Smbusb
