import Smbusb.Tools.Bq8030Verify
import Smbusb.Tools.RenesasRun

/-!
# What guards the commands that erase and write

A flasher should erase and write nothing unless it was told to with `--confirm-delete`, knows the
address, and has the file in hand that it is about to flash; a run that complains about its input
file should have left the chip alone.  `BqGuarded` and `RamGuarded` say so.

The tools do not quite keep to it.  `smbusb_bq8030flasher` erases the program flash before it looks
at the file, and the eeprom comes behind the program flash, so its file is looked at when that is
already flashed.  The other two see that an address was given before a dump, but not before an
erase.  And all of them compare the size of a file after cutting it to an `int`.
`destructive_guarded_iff` says what is left: the runs for which the promise is kept are those in
which none of this happens.
-/

namespace Smbusb

open Logic Prog Tool Bq8030

/-! ## Files -/

/-- The file is there, and has the size. -/
def Fits (files : Files) (name : List Char) (size : Nat) : Prop :=
  ∃ file, files.input name = some file ∧ file.length = size

/-- The file is there, and its size cut to an `int` is the size. -/
def Passes (files : Files) (name : List Char) (size : Nat) : Prop :=
  ∃ file, files.input name = some file ∧ toInt file.length = size

theorem FlashMemory.toInt_flashSize (m : FlashMemory) : toInt m.flashSize = m.flashSize := by
  cases m <;> rfl

theorem Fits.passes {files : Files} {name : List Char} {m : FlashMemory}
    (h : Fits files name m.flashSize) : Passes files name m.flashSize := by
  obtain ⟨file, hfile, hlen⟩ := h
  exact ⟨file, hfile, by rw [hlen, m.toInt_flashSize]⟩

/-! ## smbusb_bq8030flasher -/

/-- The promise, for a memory at a time. -/
structure BqGuarded (chip : Chip) (files : Files) (cmd : CommandLine BqOption) : Prop where
  guarded : ∀ c ∈ (bq8030flasher chip files cmd).sent, ∀ m : FlashMemory, m.destroys c = true →
    .confirmDelete ∈ cmd.opts ∧ ∃ v name, bqOptions cmd.opts .init = some v ∧
      m.input v = some name ∧ Fits files name m.flashSize
  untouched : .inputError ∈ (bq8030flasher chip files cmd).out ∨
      .sizeError ∈ (bq8030flasher chip files cmd).out →
    ∀ c ∈ (bq8030flasher chip files cmd).sent, ∀ m : FlashMemory, m.destroys c = false

section

variable {chip : Chip} {files : Files} {v : BqVars} {m : FlashMemory} {s s' : ToolState} {b : Bool}
  {cmd : CommandLine BqOption}

/-- No option but `--confirm-delete` confirms. -/
theorem bqOption_confirm {o : BqOption} {w : BqVars} (h : bqOption v o = some w)
    (hconfirm : w.confirmDelete = true) : v.confirmDelete = true ∨ o = .confirmDelete := by
  cases o with
  | confirmDelete => exact .inr rfl
  | unknown => cases h
  | _ =>
      obtain rfl := Option.some.inj h
      exact .inl hconfirm

theorem bqOptions_confirm {opts : List BqOption} {w : BqVars} (h : bqOptions opts v = some w)
    (hconfirm : w.confirmDelete = true) : v.confirmDelete = true ∨ .confirmDelete ∈ opts := by
  induction opts generalizing v with
  | nil =>
      obtain rfl := Option.some.inj h
      exact .inl hconfirm
  | cons o opts ih =>
      obtain ⟨u, hu, hrest⟩ := Option.bind_eq_some_iff.mp h
      rcases ih hrest with hgiven | hmem
      · rcases bqOption_confirm hu hgiven with hgiven | rfl
        · exact .inl hgiven
        · exact .inr List.mem_cons_self
      · exact .inr (List.mem_cons_of_mem _ hmem)

/-! ### What a flash does to its memory -/

/-- What the flashing of a memory has added to a run. -/
structure FlashPart (files : Files) (v : BqVars) (m : FlashMemory) (b : Bool) (calls : List Call)
    (lines : List Line) : Prop where
  uses : ∀ c ∈ calls, m.Uses c
  /-- Nothing is sent without a confirmation, and to the eeprom not without a file. -/
  sent : calls ≠ [] → v.confirmDelete = true ∧ ∃ name, m.input v = some name ∧
    (m = .eeprom → Passes files name m.flashSize)
  /-- A complaint is about the file, and ends the tool. -/
  complains : .inputError ∈ lines ∨ .sizeError ∈ lines → b = false ∧ v.confirmDelete = true ∧
    ∃ name, m.input v = some name ∧ ¬ Passes files name m.flashSize

theorem FlashEnd.part (h : FlashEnd chip files v m s b s') : ∃ calls lines,
    s'.sent = s.sent ++ calls ∧ s'.out = s.out ++ lines ∧ FlashPart files v m b calls lines := by
  obtain ⟨calls, hcalls, huses⟩ := h.uses
  have hquiet : ∀ {line : Line}, line ≠ .inputError → line ≠ .sizeError →
      ¬ (.inputError ∈ [line] ∨ .sizeError ∈ [line]) := by
    rintro line hinput hsize (hmem | hmem)
    · exact hinput (List.mem_singleton.mp hmem).symm
    · exact hsize (List.mem_singleton.mp hmem).symm
  cases h with
  | skipped hname =>
      have hnil : calls = [] := List.self_eq_append_right.mp hcalls
      exact ⟨calls, [], hcalls, (List.append_nil _).symm, huses, fun h => absurd hnil h, by simp⟩
  | unconfirmed hname hconfirm =>
      have hnil : calls = [] := List.self_eq_append_right.mp hcalls
      refine ⟨calls, _, hcalls, rfl, huses, fun h => absurd hnil h, fun h => ?_⟩
      exact absurd h (hquiet Line.noConfusion Line.noConfusion)
  | @noFile name hname hconfirm hno =>
      have hfails : ¬ Passes files name m.flashSize := by
        rintro ⟨file, hfile, -⟩
        exact Option.some_ne_none file (hfile.symm.trans hno)
      refine ⟨calls, _, hcalls, rfl, huses, fun hne => ⟨hconfirm, _, hname, ?_⟩,
        fun _ => ⟨rfl, hconfirm, _, hname, hfails⟩⟩
      rintro rfl
      exact absurd (List.append_cancel_left hcalls).symm hne
  | @wrongSize name _ hname hconfirm hfile hsize =>
      have hfails : ¬ Passes files name m.flashSize := by
        rintro ⟨file, hfound, hpasses⟩
        obtain rfl := Option.some.inj (hfound.symm.trans hfile)
        exact hsize hpasses
      refine ⟨calls, _, hcalls, rfl, huses, fun hne => ⟨hconfirm, _, hname, ?_⟩,
        fun _ => ⟨rfl, hconfirm, _, hname, hfails⟩⟩
      rintro rfl
      exact absurd (List.append_cancel_left hcalls).symm hne
  | fault hname hconfirm hfile hsize hno hfault =>
      obtain ⟨line, hout, hline⟩ := hfault.out
      refine ⟨calls, _, hcalls, hout, huses,
        fun _ => ⟨hconfirm, _, hname, fun _ => ⟨_, hfile, hsize⟩⟩, fun h => absurd h ?_⟩
      rcases hline with ⟨status, rfl⟩ | ⟨i, rfl⟩
      · exact hquiet Line.noConfusion Line.noConfusion
      · exact hquiet Line.noConfusion Line.noConfusion
  | done hname hconfirm hfile hsize htakes =>
      refine ⟨calls, _, hcalls, rfl, huses,
        fun _ => ⟨hconfirm, _, hname, fun _ => ⟨_, hfile, hsize⟩⟩, fun h => absurd h ?_⟩
      exact hquiet Line.noConfusion Line.noConfusion

/-- With a confirmation and a file to flash, a run that gets here erases, the eeprom if the file
passes, and complains, if the file does not. -/
theorem FlashEnd.erases (h : FlashEnd chip files v m s b s') (hconfirm : v.confirmDelete = true)
    {name : List Char} (hname : m.input v = some name) :
    (m = .program ∨ Passes files name m.flashSize → m.erase ∈ s'.sent) ∧
      (¬ Passes files name m.flashSize → .inputError ∈ s'.out ∨ .sizeError ∈ s'.out) := by
  have hsession : ∀ file verify, m.erase ∈ s.sent ++ m.session file verify := fun _ _ =>
    List.mem_append_right _ List.mem_cons_self
  cases h with
  | skipped hnone =>
      rw [hname] at hnone
      cases hnone
  | unconfirmed _ hno => exact absurd (hno.symm.trans hconfirm) Bool.false_ne_true
  | noFile hname' _ hno =>
      obtain rfl := Option.some.inj (hname.symm.trans hname')
      refine ⟨?_, fun _ => .inl (List.mem_append_right _ List.mem_cons_self)⟩
      rintro (rfl | ⟨file, hfile, -⟩)
      · exact List.mem_append_right _ List.mem_cons_self
      · exact absurd (hfile.symm.trans hno) (Option.some_ne_none file)
  | wrongSize hname' _ hfile hsize =>
      obtain rfl := Option.some.inj (hname.symm.trans hname')
      refine ⟨?_, fun _ => .inr (List.mem_append_right _ List.mem_cons_self)⟩
      rintro (rfl | ⟨file, hfound, hpasses⟩)
      · exact List.mem_append_right _ List.mem_cons_self
      · obtain rfl := Option.some.inj (hfound.symm.trans hfile)
        exact absurd hpasses hsize
  | fault hname' _ hfile hsize _ hfault =>
      obtain rfl := Option.some.inj (hname.symm.trans hname')
      refine ⟨fun _ => ?_, fun hno => absurd ⟨_, hfile, hsize⟩ hno⟩
      obtain ⟨new, hsent, -⟩ := hfault.sent
      rw [hsent]
      exact List.mem_append_left _ (List.mem_append_right _ List.mem_cons_self)
  | done hname' _ hfile hsize _ =>
      obtain rfl := Option.some.inj (hname.symm.trans hname')
      exact ⟨fun _ => hsession _ _, fun hno => absurd ⟨_, hfile, hsize⟩ hno⟩

/-! ### Whole runs -/

/-- The part of a run behind the flashing of the program flash. -/
def AfterProgram (chip : Chip) (files : Files) (v : BqVars) (s : ToolState) : Prop :=
  ∃ s₁ b s₂, FlashEnd chip files v .program (opened v) true s₁ ∧
    FlashEnd chip files v .eeprom s₁ b s₂ ∧ s.out = s₂.out ∧
    ∃ calls, s.sent = s₂.sent ++ calls ∧ ∀ c ∈ calls, c = .sendByte cmdExecuteFlash

theorem MainEnd.flashes (h : MainEnd chip files cmd s) (hflash : Flashes chip cmd v) :
    FlashEnd chip files v .program (opened v) false s ∨ AfterProgram chip files v s := by
  have hsame : ∀ {v'}, Flashes chip cmd v' → v' = v := fun h' =>
    Option.some.inj (h'.options.symm.trans hflash.options)
  cases h with
  | harmless hno _ => exact absurd hflash (hno v)
  | program hflash' hend =>
      obtain rfl := hsame hflash'
      exact .inl hend
  | eeprom hflash' hprogram hend =>
      obtain rfl := hsame hflash'
      exact .inr ⟨_, _, _, hprogram, hend, rfl, [], (List.append_nil _).symm,
        fun _ hc => absurd hc List.not_mem_nil⟩
  | through hflash' hprogram hend hout hsent =>
      obtain rfl := hsame hflash'
      exact .inr ⟨_, _, _, hprogram, hend, hout, hsent⟩

/-- The runs of `smbusb_bq8030flasher` that keep the promise.  The file of the program flash has to
fit whenever it is asked for.  That of the eeprom has to when the program flash was flashed before
it; else it only must not pass without fitting. -/
def BqKeeps (chip : Chip) (files : Files) (cmd : CommandLine BqOption) : Prop :=
  ∀ v, Flashes chip cmd v → v.confirmDelete = true →
    (∀ name, v.programIn = some name → Fits files name FlashMemory.program.flashSize) ∧
    ∀ name, v.eepromIn = some name →
      (v.programIn = none → Passes files name FlashMemory.eeprom.flashSize →
        Fits files name FlashMemory.eeprom.flashSize) ∧
      ∀ file, Usable files v .program file →
        Takes chip .program (opening v) file (!v.noVerify) →
        Fits files name FlashMemory.eeprom.flashSize

theorem bqKeeps_of_guarded (h : BqGuarded chip files cmd) : BqKeeps chip files cmd := by
  have hfits : ∀ {v name} {m : FlashMemory}, bqOptions cmd.opts .init = some v →
      m.input v = some name → m.erase ∈ (bq8030flasher chip files cmd).sent →
      Fits files name m.flashSize := by
    intro v name m hoptions hname herase
    obtain ⟨-, v', name', hoptions', hname', hfit⟩ := h.guarded _ herase m m.destroys_erase
    obtain rfl := Option.some.inj (hoptions.symm.trans hoptions')
    rwa [Option.some.inj (hname.symm.trans hname')]
  intro v hflash hconfirm
  rcases (bq8030_ends chip files cmd).flashes hflash with
    hend | ⟨s₁, b, s₂, hprogram, heeprom, hout, calls, hsent, -⟩
  · obtain ⟨⟨name₀, hname₀⟩, hno, -⟩ := hend.stops
    refine ⟨fun name hname => ?_,
      fun name hname => ⟨fun hnone => ?_, fun file husable htakes => ?_⟩⟩
    · exact hfits hflash.options hname ((hend.erases hconfirm hname).1 (.inl rfl))
    · exact absurd (hname₀.symm.trans hnone) (Option.some_ne_none name₀)
    · exact absurd htakes (hno file husable)
  · have hsent₁ : ∀ c ∈ s₁.sent, c ∈ (bq8030flasher chip files cmd).sent := by
      obtain ⟨new, hnew, -⟩ := heeprom.uses
      intro c hc
      rw [hsent, hnew]
      exact List.mem_append_left _ (List.mem_append_left _ hc)
    have hsent₂ : ∀ c ∈ s₂.sent, c ∈ (bq8030flasher chip files cmd).sent := by
      intro c hc
      rw [hsent]
      exact List.mem_append_left _ hc
    have herased : ∀ {name}, v.programIn = some name →
        FlashMemory.program.erase ∈ (bq8030flasher chip files cmd).sent := fun hname =>
      hsent₁ _ ((hprogram.erases hconfirm hname).1 (.inl rfl))
    have hpasses : ∀ {name}, v.eepromIn = some name →
        Passes files name FlashMemory.eeprom.flashSize →
        Fits files name FlashMemory.eeprom.flashSize := fun hname hpasses =>
      hfits hflash.options hname (hsent₂ _ ((heeprom.erases hconfirm hname).1 (.inr hpasses)))
    refine ⟨fun name hname => hfits hflash.options hname (herased hname),
      fun name hname => ⟨fun _ => hpasses hname, fun file husable _ => hpasses hname ?_⟩⟩
    -- Else the tool complains, with the program flash erased.
    by_contra hno
    have hcomplains := (heeprom.erases hconfirm hname).2 hno
    rw [← hout] at hcomplains
    obtain ⟨name', hname', -⟩ := husable.input
    have huntouched := h.untouched hcomplains _ (herased hname') .program
    rw [FlashMemory.program.destroys_erase] at huntouched
    cases huntouched

/-- What a run that gets to the flashing has done.  The eeprom is flashed when nothing was to be
done with the program flash, or that was flashed to its end. -/
structure FlashRun (chip : Chip) (files : Files) (v : BqVars) (s : ToolState)
    (programCalls eepromCalls : List Call) (programLines eepromLines : List Line) : Prop where
  sent : ∃ calls, s.sent = opening v ++ programCalls ++ eepromCalls ++ calls ∧
    ∀ c ∈ calls, c = .sendByte cmdExecuteFlash
  out : s.out = programLines ++ eepromLines
  program : ∃ b, FlashPart files v .program b programCalls programLines
  eeprom : ∃ b, FlashPart files v .eeprom b eepromCalls eepromLines
  order : v.programIn = none ∨
    (∃ file, Usable files v .program file ∧
      Takes chip .program (opening v) file (!v.noVerify)) ∨ eepromCalls = [] ∧ eepromLines = []

theorem MainEnd.flashRun (h : MainEnd chip files cmd s) (hflash : Flashes chip cmd v) :
    ∃ p e l l', FlashRun chip files v s p e l l' := by
  rcases h.flashes hflash with hend | ⟨s₁, b, s₂, hprogram, heeprom, hout, calls, hsent, hcalls⟩
  · obtain ⟨p, l, hsent, hout, hpart⟩ := hend.part
    refine ⟨p, [], l, [],
      ⟨[], by simpa [opened] using hsent, fun _ hc => absurd hc List.not_mem_nil⟩,
      by simpa [opened] using hout, ⟨_, hpart⟩, ⟨true, ?_, fun h => absurd rfl h, by simp⟩,
      .inr (.inr ⟨rfl, rfl⟩)⟩
    exact fun _ hc => absurd hc List.not_mem_nil
  · obtain ⟨p, l, hsent₁, hout₁, hpart⟩ := hprogram.part
    obtain ⟨e, l', hsent₂, hout₂, hpart'⟩ := heeprom.part
    refine ⟨p, e, l, l', ⟨calls, ?_, hcalls⟩, ?_, ⟨_, hpart⟩, ⟨_, hpart'⟩, ?_⟩
    · rw [hsent, hsent₂, hsent₁, opened]
    · rw [hout, hout₂, hout₁, opened, List.nil_append]
    · rcases hprogram.goes_on with ⟨hnone, -⟩ | ⟨file, husable, htakes, -⟩
      · exact .inl hnone
      · exact .inr (.inl ⟨file, husable, htakes⟩)

section

variable {p e : List Call} {l l' : List Line}

/-- When the promise is kept, what is sent to the program flash is from a file that fits. -/
theorem FlashRun.program_fits (h : FlashRun chip files v s p e l l')
    (hkeeps : BqKeeps chip files cmd) (hflash : Flashes chip cmd v) (hp : p ≠ []) :
    v.confirmDelete = true ∧
      ∃ name, v.programIn = some name ∧ Fits files name FlashMemory.program.flashSize := by
  obtain ⟨b, hpart⟩ := h.program
  obtain ⟨hconfirm, name, hname, -⟩ := hpart.sent hp
  exact ⟨hconfirm, name, hname, (hkeeps v hflash hconfirm).1 name hname⟩

theorem FlashRun.eeprom_fits (h : FlashRun chip files v s p e l l')
    (hkeeps : BqKeeps chip files cmd) (hflash : Flashes chip cmd v) (he : e ≠ []) :
    v.confirmDelete = true ∧
      ∃ name, v.eepromIn = some name ∧ Fits files name FlashMemory.eeprom.flashSize := by
  obtain ⟨b, hpart⟩ := h.eeprom
  obtain ⟨hconfirm, name, hname, hpasses⟩ := hpart.sent he
  obtain ⟨halone, hbehind⟩ := (hkeeps v hflash hconfirm).2 name hname
  refine ⟨hconfirm, name, hname, ?_⟩
  rcases h.order with hnone | ⟨file, husable, htakes⟩ | ⟨hnil, -⟩
  · exact halone hnone (hpasses rfl)
  · exact hbehind file husable htakes
  · exact absurd hnil he

/-- When the promise is kept, a run that complains about a file has sent nothing. -/
theorem FlashRun.nothing_sent (h : FlashRun chip files v s p e l l')
    (hkeeps : BqKeeps chip files cmd) (hflash : Flashes chip cmd v)
    (hcomplains : .inputError ∈ s.out ∨ .sizeError ∈ s.out) : p = [] ∧ e = [] := by
  obtain ⟨b, hpart⟩ := h.program
  obtain ⟨b', hpart'⟩ := h.eeprom
  have hprogram : ¬ (.inputError ∈ l ∨ .sizeError ∈ l) := by
    intro hmem
    obtain ⟨-, hconfirm, name, hname, hno⟩ := hpart.complains hmem
    exact hno ((hkeeps v hflash hconfirm).1 name hname).passes
  have heeprom : .inputError ∈ l' ∨ .sizeError ∈ l' := by
    rw [h.out] at hcomplains
    rcases hcomplains with hmem | hmem
    · exact .inl ((List.mem_append.mp hmem).resolve_left fun h => hprogram (.inl h))
    · exact .inr ((List.mem_append.mp hmem).resolve_left fun h => hprogram (.inr h))
  obtain ⟨-, hconfirm, name, hname, hno⟩ := hpart'.complains heeprom
  refine ⟨?_, ?_⟩
  · by_contra hp
    obtain ⟨-, name', hname', -⟩ := h.program_fits hkeeps hflash hp
    rcases h.order with hnone | ⟨file, husable, htakes⟩ | ⟨-, hnil⟩
    · exact Option.some_ne_none name' (hname'.symm.trans hnone)
    · exact hno (((hkeeps v hflash hconfirm).2 name hname).2 file husable htakes).passes
    · simp [hnil] at heeprom
  · by_contra he
    obtain ⟨-, name', hname', hfits⟩ := h.eeprom_fits hkeeps hflash he
    obtain rfl := Option.some.inj (hname.symm.trans hname')
    exact hno hfits.passes

/-- A destructive call belongs to the flashing of its memory. -/
theorem FlashRun.destroys (h : FlashRun chip files v s p e l l') {c : Call} (hc : c ∈ s.sent)
    (hm : m.destroys c = true) : m = .program ∧ p ≠ [] ∨ m = .eeprom ∧ e ≠ [] := by
  obtain ⟨b, hpart⟩ := h.program
  obtain ⟨b', hpart'⟩ := h.eeprom
  obtain ⟨calls, hsent, hcalls⟩ := h.sent
  rw [hsent] at hc
  simp only [List.mem_append] at hc
  rcases hc with ((hc | hc) | hc) | hc
  · have hharmless := (harmless_opening v 4).sent c hc m
    rw [hharmless] at hm
    cases hm
  · exact .inl ⟨(hpart.uses c hc).destroys hm, List.ne_nil_of_mem hc⟩
  · exact .inr ⟨(hpart'.uses c hc).destroys hm, List.ne_nil_of_mem hc⟩
  · rw [hcalls c hc] at hm
    cases m <;> cases hm

end

theorem guarded_of_bqKeeps (hkeeps : BqKeeps chip files cmd) : BqGuarded chip files cmd := by
  have hends := bq8030_ends chip files cmd
  by_cases hflashes : ∃ v, Flashes chip cmd v
  · obtain ⟨v, hflash⟩ := hflashes
    obtain ⟨p, e, l, l', hrun⟩ := hends.flashRun hflash
    have hgiven : v.confirmDelete = true → .confirmDelete ∈ cmd.opts := fun hconfirm =>
      (bqOptions_confirm hflash.options hconfirm).resolve_left Bool.false_ne_true
    refine ⟨fun c hc m hm => ?_, fun hcomplains c hc m => ?_⟩
    · rcases hrun.destroys hc hm with ⟨rfl, hp⟩ | ⟨rfl, he⟩
      · obtain ⟨hconfirm, name, hname, hfits⟩ := hrun.program_fits hkeeps hflash hp
        exact ⟨hgiven hconfirm, v, name, hflash.options, hname, hfits⟩
      · obtain ⟨hconfirm, name, hname, hfits⟩ := hrun.eeprom_fits hkeeps hflash he
        exact ⟨hgiven hconfirm, v, name, hflash.options, hname, hfits⟩
    · obtain ⟨hp, he⟩ := hrun.nothing_sent hkeeps hflash hcomplains
      refine Bool.eq_false_iff.mpr fun hm => ?_
      rcases hrun.destroys hc hm with ⟨-, hne⟩ | ⟨-, hne⟩
      · exact hne hp
      · exact hne he
  · have hharmless : Harmless (bq8030flasher chip files cmd) := by
      cases hends with
      | harmless _ h => exact h
      | program hflash _ => exact absurd ⟨_, hflash⟩ hflashes
      | eeprom hflash _ _ => exact absurd ⟨_, hflash⟩ hflashes
      | through hflash _ _ _ _ => exact absurd ⟨_, hflash⟩ hflashes
    refine ⟨fun c hc m hm => ?_, fun _ => hharmless.sent⟩
    rw [hharmless.sent c hc m] at hm
    cases hm

end

/-! ## The other two flashers -/

/-- The option gives an address. -/
def givesAddress (table : RamTable) : RamOption → Bool
  | .address _ => true
  | .a _ => true
  | .preset name => (table.preset name).isSome
  | .p name => (table.preset name).isSome
  | _ => false

/-- An address is given. -/
def AddressGiven (table : RamTable) (cmd : CommandLine RamOption) : Prop :=
  ∃ o ∈ cmd.opts, givesAddress table o = true

/-- The input file, as it is when it is opened, is there and has the size to be flashed. -/
def InputFits (files : Files) (v : RamVars) (name : List Char) : Prop :=
  ∃ n : Nat, inputLength files v name = some n ∧ n = v.opSize

/-- The promise.  A run that only erases has no input file. -/
structure RamGuarded (table : RamTable) (destroys : Call → Bool) (files : Files)
    (cmd : CommandLine RamOption) (s : ToolState) : Prop where
  guarded : ∀ c ∈ s.sent, destroys c = true → .confirmDelete ∈ cmd.opts ∧
    AddressGiven table cmd ∧ ∃ v, ramOptions table cmd.opts .init = some v ∧
      ∀ name, v.ramIn = some name → InputFits files v name
  untouched : .inputError ∈ s.out ∨ .sizeError ∈ s.out → ∀ c ∈ s.sent, destroys c = false

/-- The runs that keep the promise: those that get to the first destructive command only with an
address, and with a file that fits. -/
def RamKeeps (table : RamTable) (aligned : Int → Prop) (chip : Chip) (files : Files)
    (cmd : CommandLine RamOption) : Prop :=
  ∀ v, RamReaches table aligned chip files cmd v →
    AddressGiven table cmd ∧ ∀ name, v.ramIn = some name → InputFits files v name

/-- No option but `--confirm-delete` confirms. -/
def Confirms (table : RamTable) : Prop :=
  ∀ {o v w}, ramOption table v o = some w → w.confirmDelete = true →
    v.confirmDelete = true ∨ o = .confirmDelete

section

variable {table : RamTable} {v w : RamVars}

theorem ramOptions_confirm (htable : Confirms table) {opts : List RamOption}
    (h : ramOptions table opts v = some w) (hconfirm : w.confirmDelete = true) :
    v.confirmDelete = true ∨ .confirmDelete ∈ opts := by
  induction opts generalizing v with
  | nil =>
      obtain rfl := Option.some.inj h
      exact .inl hconfirm
  | cons o opts ih =>
      obtain ⟨u, hu, hrest⟩ := Option.bind_eq_some_iff.mp h
      rcases ih hrest with hgiven | hmem
      · rcases htable hu hgiven with hgiven | rfl
        · exact .inl hgiven
        · exact .inr List.mem_cons_self
      · exact .inr (List.mem_cons_of_mem _ hmem)

theorem confirms_of_code (hcode : ∀ o set, table.code o = .flag set →
    (∀ v, (set v).confirmDelete = v.confirmDelete) ∨ o = .confirmDelete) : Confirms table := by
  intro o v w h hconfirm
  unfold ramOption at h
  split at h
  · next set hset =>
    obtain rfl := Option.some.inj h
    rcases hcode o set hset with hkeeps | ho
    · exact .inl ((hkeeps v).symm.trans hconfirm)
    · exact .inr ho
  · obtain rfl := Option.some.inj h
    exact .inl hconfirm
  · refine .inl ?_
    split_ifs at h
    all_goals first
      | obtain rfl := Option.some.inj h
        exact hconfirm
      | split at h <;>
          obtain rfl := Option.some.inj h <;> exact hconfirm

theorem confirms_r2j240 : Confirms R2j240.table := by
  refine confirms_of_code fun o set hset => ?_
  cases o <;> cases hset <;> first
    | exact .inr rfl
    | exact .inl fun _ => rfl

theorem confirms_m37512 : Confirms M37512.table := by
  refine confirms_of_code fun o set hset => ?_
  cases o <;> cases hset <;> first
    | exact .inr rfl
    | exact .inl fun _ => rfl

variable {destroys : Call → Bool} {aligned : Int → Prop} {chip : Chip} {files : Files}
  {cmd : CommandLine RamOption} {s : ToolState}

/-- A run that ends as it should is guarded if and only if it does not get to the first destructive
command without what it takes. -/
theorem RamEnds.guarded_iff (htable : Confirms table)
    (h : RamEnds destroys (∃ v, RamReaches table aligned chip files cmd v) s) :
    RamGuarded table destroys files cmd s ↔ RamKeeps table aligned chip files cmd := by
  constructor
  · intro hguarded v hv
    obtain ⟨c, hc, hdestroys⟩ := (h.begun ⟨v, hv⟩).sent
    obtain ⟨-, haddress, v', hoptions, hfits⟩ := hguarded.guarded c hc hdestroys
    obtain rfl := Option.some.inj (hoptions.symm.trans hv.options)
    exact ⟨haddress, hfits⟩
  · intro hkeeps
    by_cases hreached : ∃ v, RamReaches table aligned chip files cmd v
    · have hbegun := h.begun hreached
      obtain ⟨v, hv⟩ := hreached
      obtain ⟨haddress, hfits⟩ := hkeeps v hv
      have hgiven : .confirmDelete ∈ cmd.opts :=
        (ramOptions_confirm htable hv.options hv.goes.confirmed).resolve_left Bool.false_ne_true
      refine ⟨fun _ _ _ => ⟨hgiven, haddress, v, hv.options, hfits⟩, fun hcomplains => ?_⟩
      rcases hcomplains with hmem | hmem
      · exact absurd hmem hbegun.input
      · exact absurd hmem hbegun.size
    · have huntouched := h.untouched hreached
      refine ⟨fun c hc hdestroys => ?_, fun _ => huntouched⟩
      rw [huntouched c hc] at hdestroys
      cases hdestroys

end

/-! ## The three tools -/

/-- The commands that erase and write are guarded in exactly the runs that get to none of them
without its guard. -/
theorem destructive_guarded_iff (chip : Chip) (files : Files) (arrays : Arrays)
    (bqCmd : CommandLine BqOption) (ramCmd : CommandLine RamOption) :
    (BqGuarded chip files bqCmd ↔ BqKeeps chip files bqCmd) ∧
      (RamGuarded R2j240.table R2j240.destroys files ramCmd
          (R2j240.r2j240flasher chip files arrays ramCmd) ↔
        RamKeeps R2j240.table R2j240.Aligned chip files ramCmd) ∧
      (RamGuarded M37512.table M37512.destroys files ramCmd
          (M37512.m37512flasher chip files arrays ramCmd) ↔
        RamKeeps M37512.table M37512.Aligned chip files ramCmd) := by
  refine ⟨⟨bqKeeps_of_guarded, guarded_of_bqKeeps⟩, ?_, ?_⟩
  · exact (r2j240_ends chip files arrays ramCmd).guarded_iff confirms_r2j240
  · exact (m37512_ends chip files arrays ramCmd).guarded_iff confirms_m37512

/-- Arrays of zeros. -/
def zeroArrays : Arrays := ⟨fun _ => 0, fun _ => 0, fun _ _ => 0⟩

/-- The program flash is erased for a file that is not there, and the other two tools erase when no
address is given. -/
theorem not_destructive_guarded :
    ¬ BqGuarded erasedChip ⟨fun _ => none, fun _ => false⟩ ⟨4, [.confirmDelete, .f ['f']]⟩ ∧
      ¬ RamGuarded R2j240.table R2j240.destroys ⟨fun _ => none, fun _ => false⟩
        ⟨3, [.confirmDelete, .erase]⟩ (R2j240.r2j240flasher erasedChip
          ⟨fun _ => none, fun _ => false⟩ zeroArrays ⟨3, [.confirmDelete, .erase]⟩) ∧
      ¬ RamGuarded M37512.table M37512.destroys ⟨fun _ => none, fun _ => false⟩
        ⟨3, [.confirmDelete, .erase]⟩ (M37512.m37512flasher erasedChip
          ⟨fun _ => none, fun _ => false⟩ zeroArrays ⟨3, [.confirmDelete, .erase]⟩) := by
  refine ⟨fun h => ?_, fun h => ?_, fun h => ?_⟩
  · have huntouched := h.untouched (.inl (by decide +kernel)) FlashMemory.program.erase
      (by decide +kernel) .program
    exact absurd huntouched (by decide)
  · obtain ⟨-, ⟨o, ho, haddress⟩, -⟩ := h.guarded (R2j240.eraseCall (toUnsigned (-1)))
      (by decide +kernel) (by decide)
    simp only [List.mem_cons, List.not_mem_nil, or_false] at ho
    rcases ho with rfl | rfl <;> cases haddress
  · obtain ⟨-, ⟨o, ho, haddress⟩, -⟩ := h.guarded (M37512.clearCall (-1))
      (by decide +kernel) (by decide)
    simp only [List.mem_cons, List.not_mem_nil, or_false] at ho
    rcases ho with rfl | rfl <;> cases haddress

end Smbusb
