import Smbusb.Tools.Bq8030Flash

/-!
# Runs of smbusb_bq8030flasher

How a run ends, for any command line, files and chip.  A run that does not get to flash
anything erases and writes nothing (`Harmless`).  Else the flashing of the program flash and of
the eeprom end one behind the other, as `FlashEnd` says (`bq8030_ends`).
-/

namespace Smbusb

open Logic Prog Tool Bq8030

/-! ## Before the flashing -/

/-- Nothing was erased, written or verified. -/
structure Harmless (s : ToolState) : Prop where
  sent : ∀ c ∈ s.sent, ∀ m : FlashMemory, m.destroys c = false
  out : ∀ m, .verified (some m) ∉ s.out

section

variable {s : ToolState}

theorem Harmless.call (h : Harmless s) {c : Call} (hc : ∀ m : FlashMemory, m.destroys c = false) :
    Harmless { s with sent := s.sent ++ [c] } := by
  refine ⟨fun c' hc' => ?_, h.out⟩
  rcases List.mem_append.mp hc' with hc' | hc'
  · exact h.sent c' hc'
  · rwa [List.mem_singleton.mp hc']

theorem Harmless.print (h : Harmless s) {line : Line} (hline : ∀ m, line ≠ .verified m) :
    Harmless { s with out := s.out ++ [line] } := by
  refine ⟨h.sent, fun m hmem => ?_⟩
  rcases List.mem_append.mp hmem with hmem | hmem
  · exact h.out m hmem
  · exact hline _ (List.mem_singleton.mp hmem).symm

theorem Harmless.save (h : Harmless s) (saved : List (List Char × List Byte)) :
    Harmless { s with saved } := ⟨h.sent, h.out⟩

theorem harmless_init : Harmless .init :=
  ⟨fun _ h => absurd h List.not_mem_nil, fun _ h => absurd h List.not_mem_nil⟩

end

/-- The calls that open the device and look at the chip. -/
def opening (v : BqVars) : List Call :=
  [.openDevice v.device, .enablePec v.pec, .readBlock cmdSbsChemistry,
    .readWord cmdBootromVersion]

/-- Opening the device erases and writes nothing, as far as it gets. -/
theorem harmless_opening (v : BqVars) (k : Nat) : Harmless ⟨(opening v).take k, [], []⟩ := by
  refine ⟨fun c hc m => ?_, fun _ h => absurd h List.not_mem_nil⟩
  have hmem := List.mem_of_mem_take hc
  simp only [opening, List.mem_cons, List.not_mem_nil, or_false] at hmem
  rcases hmem with rfl | rfl | rfl | rfl <;> cases m <;> rfl

/-- The device can be opened, and the chip is in its boot ROM. -/
structure Opens (chip : Chip) (v : BqVars) : Prop where
  oneWay : ((v.programOut.isSome || v.eepromOut.isSome) &&
    (v.programIn.isSome || v.eepromIn.isSome)) = false
  device : 0 ≤ chip.status ((opening v).take 1)
  bootRom : (chip.block ((opening v).take 3)).status ≠ 4
  version : 0 < chip.status (opening v)

section

variable {chip : Chip} {files : Files} {v : BqVars}

theorem wp_bqOpen {Q : Unit → ToolState → Prop} {E : Int → ToolState → Prop}
    (hopens : Opens chip v → Q () ⟨opening v, [], []⟩)
    (hfails : ∀ code s, ¬ Opens chip v → Harmless s → s.saved = [] → E code s) :
    wp (bqOpen chip v) Q E .init := by
  simp only [bqOpen, wp_ite, wp_bind, wp_print, wp_exit, wp_call, Tool.wp_readBlock, wp_pure]
  split
  · next hboth =>
    refine hfails 1 _ (fun h => ?_) (harmless_init.print fun _ h => Line.noConfusion h) rfl
    exact Bool.noConfusion (h.oneWay.symm.trans hboth)
  · next hboth =>
    split
    · next hdevice =>
      refine hfails 0 _ (fun h => ?_)
        ((harmless_opening v 1).print fun _ h => Line.noConfusion h) rfl
      exact absurd h.device (Int.not_le.mpr hdevice)
    · next hdevice =>
      split
      · next hrom =>
        refine hfails 1 _ (fun h => ?_)
          ((harmless_opening v 3).print fun _ h => Line.noConfusion h) rfl
        exact h.bootRom hrom
      · next hrom =>
        split
        · next hversion =>
          refine hfails 1 _ (fun h => ?_)
            ((harmless_opening v 4).print fun _ h => Line.noConfusion h) rfl
          exact absurd h.version (Int.not_lt.mpr hversion)
        · next hversion =>
          exact hopens ⟨Bool.eq_false_iff.mpr hboth, Int.not_lt.mp hdevice, hrom,
            Int.not_le.mp hversion⟩

/-- What is kept by the calls that read a memory, by the lines that tell of a failure and by
storing a block that was read, is kept when the memory is saved. -/
theorem wp_bqSave (m : FlashMemory) {name : Option (List Char)} {I : ToolState → Prop}
    (hset : ∀ s i, I s → I { s with sent := s.sent ++ [m.setCall i] })
    (hread : ∀ s, I s → I { s with sent := s.sent ++ [m.readCall] })
    (hprint : ∀ s line, (∀ m, line ≠ .verified m) → I s → I { s with out := s.out ++ [line] })
    (hsave : ∀ s before name' data, I s → name = some name' → s.sent = before ++ [m.readCall] →
      (chip.block s.sent).Gives data → data.length = m.blockSize →
        I { s with saved := s.saved ++ [(name', data)] })
    {s : ToolState} (h : I s) :
    wp (bqSave files m.blockSize m.blockCount (m.readBlock chip) name) (fun _ => I) (fun _ => I)
      s := by
  cases hname : name with
  | none => exact h
  | some name =>
      simp only [bqSave, wp_ite, wp_bind, wp_print, wp_exit]
      split
      · refine wp_forUpTo (fun _ => I) (fun i _ _ s hs => ?_) (fun _ h => h) h
        have hcalls := hread _ (hset s i hs)
        simp only [wp_bind, wp_readBlock, wp_ite, wp_print, wp_exit, wp_save]
        split
        · split
          · exact hprint _ _ (fun _ => Line.noConfusion) hcalls
          · next hstatus =>
            have hread := Classical.not_not.mp hstatus
            exact hsave _ _ _ _ hcalls hname rfl (BlockAnswer.gives_take hread)
              (BlockAnswer.length_take hread)
        · rw [if_pos (BlockAnswer.failed_status 0 _)]
          exact hprint _ _ (fun _ => Line.noConfusion) (hset s i hs)
      · exact hprint _ _ (fun _ => Line.noConfusion) h

/-- Saving a memory erases and writes nothing. -/
theorem bqSave_harmless (m : FlashMemory) (name : Option (List Char))
    {s : ToolState} (h : Harmless s) :
    wp (bqSave files m.blockSize m.blockCount (m.readBlock chip) name) (fun _ => Harmless)
      (fun _ => Harmless) s :=
  wp_bqSave m (fun _ i h => h.call fun m' => m.destroys_setCall m' i)
    (fun _ h => h.call m.destroys_readCall) (fun _ _ hline h => h.print hline)
    (fun _ _ _ _ h _ _ _ _ => h.save _) h

end

/-! ## Whole runs -/

/-- The run gets to the flashing. -/
structure Flashes (chip : Chip) (cmd : CommandLine BqOption) (v : BqVars) : Prop where
  args : cmd.argc ≠ 1
  options : bqOptions cmd.opts .init = some v
  opens : Opens chip v
  programOut : v.programOut = none
  eepromOut : v.eepromOut = none

/-- The state then. -/
def opened (v : BqVars) : ToolState := ⟨opening v, [], []⟩

/-- How a run ends. -/
inductive MainEnd (chip : Chip) (files : Files) (cmd : CommandLine BqOption) (s : ToolState) : Prop
  | harmless : (∀ v, ¬ Flashes chip cmd v) → Harmless s → MainEnd chip files cmd s
  | program {v : BqVars} : Flashes chip cmd v →
      FlashEnd chip files v .program (opened v) false s → MainEnd chip files cmd s
  | eeprom {v : BqVars} {s₁ : ToolState} : Flashes chip cmd v →
      FlashEnd chip files v .program (opened v) true s₁ →
      FlashEnd chip files v .eeprom s₁ false s → MainEnd chip files cmd s
  | through {v : BqVars} {s₁ s₂ : ToolState} : Flashes chip cmd v →
      FlashEnd chip files v .program (opened v) true s₁ →
      FlashEnd chip files v .eeprom s₁ true s₂ → s.out = s₂.out →
      (∃ calls, s.sent = s₂.sent ++ calls ∧ ∀ c ∈ calls, c = .sendByte cmdExecuteFlash) →
      MainEnd chip files cmd s

section

variable {chip : Chip} {files : Files} {v : BqVars} {cmd : CommandLine BqOption}

theorem wp_bqRun (hargs : cmd.argc ≠ 1) (hoptions : bqOptions cmd.opts .init = some v) :
    wp (bqRun chip files v) (fun _ => MainEnd chip files cmd) (fun _ => MainEnd chip files cmd)
      .init := by
  have hfails : ∀ {s}, ¬ (Opens chip v ∧ v.programOut = none ∧ v.eepromOut = none) → Harmless s →
      MainEnd chip files cmd s := by
    refine fun hno hharmless => .harmless (fun v' hflash => hno ?_) hharmless
    obtain rfl : v' = v := Option.some.inj (hflash.options.symm.trans hoptions)
    exact ⟨hflash.opens, hflash.programOut, hflash.eepromOut⟩
  rw [bqRun, wp_bind]
  refine wp_bqOpen (fun hopens => ?_) fun _ s hno hharmless _ =>
    hfails (fun h => hno h.1) hharmless
  have hexecute : ∀ {Q : Unit → ToolState → Prop} {s₂ : ToolState},
      (∀ s, s.out = s₂.out → (∃ calls, s.sent = s₂.sent ++ calls ∧
        ∀ c ∈ calls, c = .sendByte cmdExecuteFlash) → Q () s) →
      wp (if v.execute = true then do
          let _ ← call chip (.sendByte cmdExecuteFlash)
        else pure () : Tool Unit) Q (fun _ => MainEnd chip files cmd) s₂ := by
    intro Q s₂ hQ
    simp only [wp_ite, wp_bind, wp_call, wp_pure]
    split
    · exact hQ _ rfl ⟨_, rfl, fun c hc => List.mem_singleton.mp hc⟩
    · exact hQ _ rfl ⟨[], (List.append_nil _).symm, fun _ hc => absurd hc List.not_mem_nil⟩
  by_cases hsave : v.programOut = none ∧ v.eepromOut = none
  · have hflash : Flashes chip cmd v := ⟨hargs, hoptions, hopens, hsave.1, hsave.2⟩
    rw [hsave.1, hsave.2]
    simp only [bqSave, wp_bind, wp_pure]
    refine wp_mono (flashProgram_ends (opened v)) (fun _ s₁ h₁ => ?_) fun _ s h => .program hflash h
    refine wp_mono (flashEeprom_ends s₁) (fun _ s₂ h₂ => ?_) fun _ s h => .eeprom hflash h₁ h
    exact hexecute fun s hout hsent => .through hflash h₁ h₂ hout hsent
  · have hin : v.programIn = none ∧ v.eepromIn = none := by
      have hway := hopens.oneWay
      simp only [Bool.and_eq_false_iff, Bool.or_eq_false_iff, Option.isSome_eq_false_iff,
        Option.isNone_iff_eq_none] at hway
      exact hway.resolve_left hsave
    have hharmless : Harmless (opened v) := harmless_opening v 4
    have hends : ∀ {s}, Harmless s → MainEnd chip files cmd s := hfails fun h => hsave h.2
    simp only [wp_bind]
    refine wp_mono (bqSave_harmless .program v.programOut hharmless) (fun _ s₁ h₁ => ?_)
      fun _ s h => hends h
    refine wp_mono (bqSave_harmless .eeprom v.eepromOut h₁) (fun _ s₂ h₂ => ?_) fun _ s h => hends h
    rw [flashProgram, flashEeprom, hin.1, hin.2]
    simp only [wp_pure]
    refine hexecute fun s hout hmore => hends ?_
    obtain ⟨calls, hsent, hcalls⟩ := hmore
    refine ⟨?_, ?_⟩
    · rw [hsent]
      intro c hc m
      rcases List.mem_append.mp hc with hc | hc
      · exact h₂.sent c hc m
      · rw [hcalls c hc]
        cases m <;> rfl
    · rw [hout]
      exact h₂.out

/-- How a run ends. -/
theorem bq8030_ends (chip : Chip) (files : Files) (cmd : CommandLine BqOption) :
    MainEnd chip files cmd (bq8030flasher chip files cmd) := by
  refine endState_of_wp ?_
  rw [main]
  split
  · next hargs => exact .harmless (fun v h => h.args hargs) harmless_init
  · next hargs =>
    split
    · next hoptions =>
      refine .harmless (fun v h => ?_) harmless_init
      exact Option.some_ne_none v (h.options.symm.trans hoptions)
    · next v hoptions => exact wp_bqRun hargs hoptions

end

end Smbusb
