import Smbusb.Tools.R2j240
import Smbusb.Tools.M37512

/-!
# Runs of the two Renesas flashers

When a run gets to the first command that erases or writes (`RamReaches`), and what it has done and
said when it ends: one that does not get there has sent none, and one that does has not complained
about its input file (`r2j240_ends`, `m37512_ends`).

The functions that talk to the chip make calls, print nothing and do not exit (`Makes`).  So of
such a function only the kind of its calls matters here.
-/

namespace Smbusb

open Logic Prog Tool

/-! ## Functions that only make calls -/

/-- Between the two states only calls of one kind were made. -/
structure Calls (kind : Call → Prop) (s s' : ToolState) : Prop where
  sent : ∃ new, s'.sent = s.sent ++ new ∧ ∀ c ∈ new, kind c
  out : s'.out = s.out
  saved : s'.saved = s.saved

/-- The function returns, and only makes calls of one kind. -/
def Makes {A : Type} (kind : Call → Prop) (m : Tool A) : Prop :=
  ∀ s, wp m (fun _ s' => Calls kind s s') (fun _ _ => False) s

section

variable {A B : Type} {kind : Call → Prop}

theorem Calls.refl (s : ToolState) : Calls kind s s :=
  ⟨⟨[], (List.append_nil _).symm, fun _ hc => absurd hc List.not_mem_nil⟩, rfl, rfl⟩

theorem Calls.trans {s s' s'' : ToolState} (h : Calls kind s s') (h' : Calls kind s' s'') :
    Calls kind s s'' := by
  obtain ⟨new, hsent, hnew⟩ := h.sent
  obtain ⟨new', hsent', hnew'⟩ := h'.sent
  refine ⟨⟨new ++ new', by rw [hsent', hsent, List.append_assoc], fun c hc => ?_⟩,
    h'.out.trans h.out, h'.saved.trans h.saved⟩
  rcases List.mem_append.mp hc with hc | hc
  · exact hnew c hc
  · exact hnew' c hc

theorem Makes.wp {m : Tool A} {Q : A → ToolState → Prop} {E : Int → ToolState → Prop}
    {s : ToolState} (h : Makes kind m) (hQ : ∀ a s', Calls kind s s' → Q a s') :
    Prog.wp m Q E s :=
  wp_mono (h s) hQ fun _ _ h => h.elim

theorem makes_pure (a : A) : Makes kind (pure a : Tool A) := Calls.refl

theorem makes_get : Makes kind (get : Tool ToolState) := Calls.refl

theorem makes_bind {m : Tool A} {k : A → Tool B} (hm : Makes kind m) (hk : ∀ a, Makes kind (k a)) :
    Makes kind (m >>= k) := by
  intro s
  rw [wp_bind]
  exact hm.wp fun a s' h => (hk a).wp fun _ s'' h' => h.trans h'

theorem makes_ite {c : Prop} [Decidable c] {m m' : Tool A} (h : Makes kind m)
    (h' : Makes kind m') : Makes kind (if c then m else m') := by
  split
  · exact h
  · exact h'

variable (chip : Chip)

theorem makes_call {c : Call} (h : kind c) : Makes kind (Tool.call chip c) :=
  fun _ => ⟨⟨[c], rfl, fun _ hc => List.mem_singleton.mp hc ▸ h⟩, rfl, rfl⟩

theorem makes_readBlock {command : Byte} (h : kind (.readBlock command)) :
    Makes kind (Tool.readBlock chip command) :=
  fun _ => ⟨⟨[.readBlock command], rfl, fun _ hc => List.mem_singleton.mp hc ▸ h⟩, rfl, rfl⟩

end

namespace R2j240

variable (chip : Chip) {arrays : Arrays} {kind : Call → Prop}

theorem makes_readRamLoop (hread : ∀ addr cur, kind (readRamCall addr cur)) (fuel remain ptr : Nat)
    (addr : UInt) (sts : Int) (buf : Mem Byte) :
    Makes kind (readRamLoop chip fuel remain ptr addr sts buf) := by
  induction fuel generalizing remain ptr addr sts buf with
  | zero => exact makes_pure _
  | succ fuel ih =>
      rw [readRamLoop]
      refine makes_ite (makes_pure _) (makes_bind (makes_call chip (hread _ _)) fun _ => ?_)
      refine makes_bind makes_get fun s => makes_ite (makes_pure _) ?_
      exact ih _ _ _ _ _

theorem makes_readRam (hread : ∀ addr cur, kind (readRamCall addr cur)) (address size : UInt)
    (buf : Mem Byte) : Makes kind (readRam chip address size buf) :=
  makes_bind (makes_readRamLoop chip hread _ _ _ _ _ _) fun _ => makes_pure _

theorem makes_writeRam (address size : UInt) (buf : Mem Byte) :
    Makes (fun _ => True) (writeRam chip address size buf) := by
  have hloop : ∀ fuel remain ptr addr sts,
      Makes (fun _ => True) (writeRamLoop chip fuel remain ptr addr sts buf) := by
    intro fuel
    induction fuel with
    | zero => exact fun _ _ _ _ => makes_pure _
    | succ fuel ih =>
        intro remain ptr addr sts
        rw [writeRamLoop]
        refine makes_ite (makes_pure _) (makes_bind (makes_call chip trivial) fun _ => ?_)
        exact makes_ite (makes_pure _) (ih _ _ _ _)
  exact makes_bind (hloop _ _ _ _ _) fun _ => makes_pure _

theorem makes_readBack (hread : ∀ addr cur, kind (readRamCall addr cur)) (address size : UInt)
    (turns : Nat) (status : Int) (buf : Mem Byte) :
    Makes kind (readBack chip address size turns status buf) := by
  induction turns generalizing status buf with
  | zero => exact makes_pure _
  | succ turns ih =>
      refine makes_bind (makes_readRam chip hread address size buf) fun r => ?_
      exact makes_ite (ih _ _) (makes_ite (makes_pure _) (ih _ _))

/-- Behind the command that erases, `eraseFlashBlock` only reads. -/
theorem wp_eraseFlashBlock {Q : Int → ToolState → Prop} {E : Int → ToolState → Prop}
    {address size : UInt} {s : ToolState}
    (hQ : ∀ status s', Calls (fun _ => True) { s with sent := s.sent ++ [eraseCall address] } s' →
      Q status s') : wp (eraseFlashBlock chip arrays address size) Q E s := by
  rw [eraseFlashBlock, wp_bind, wp_call]
  refine Makes.wp ?_ hQ
  refine makes_ite (makes_pure _) (makes_bind (makes_call chip trivial) fun _ => ?_)
  refine makes_bind makes_get fun _ => makes_ite ?_ (makes_pure _)
  exact makes_readBack chip (fun _ _ => trivial) _ _ _ _ _

end R2j240

namespace M37512

variable (chip : Chip) {arrays : Arrays}

theorem reads_readFlash (address len : Int) (buf : Mem Byte) :
    Makes (fun c => M37512.destroys c = false) (readFlash chip arrays address len buf) := by
  have hloop : ∀ turns i chunk buf, Makes (fun c => M37512.destroys c = false)
      (readChunks chip address turns i chunk buf) := by
    intro turns
    induction turns with
    | zero => exact fun _ _ _ => makes_pure _
    | succ turns ih =>
        intro i chunk buf
        refine makes_bind (makes_call chip rfl) fun _ => makes_ite (makes_pure _) ?_
        exact makes_bind (makes_readBlock chip rfl) fun _ => ih _ _ _
  refine makes_ite (makes_pure _) (makes_bind makes_get fun _ => ?_)
  exact makes_bind (hloop _ _ _ _) fun _ => makes_pure _

theorem makes_writeFlash (address len : Int) (buf : Mem Byte) :
    Makes (fun _ => True) (writeFlash chip address len buf) := by
  have hloop : ∀ turns i, Makes (fun _ => True) (writeChunks chip address buf turns i) := by
    intro turns
    induction turns with
    | zero => exact fun _ => makes_pure _
    | succ turns ih =>
        intro i
        refine makes_bind (makes_call chip trivial) fun _ => ?_
        exact makes_bind (makes_call chip trivial) fun _ => makes_ite (makes_pure _) (ih _)
  exact makes_ite (makes_pure _) (makes_bind (hloop _ _) fun _ => makes_pure _)

/-- Behind the command that erases, `eraseFlashBlock` reads the status. -/
theorem wp_eraseFlashBlock {Q : Int → ToolState → Prop} {E : Int → ToolState → Prop}
    {address : Int} {s : ToolState}
    (hQ : ∀ status s', Calls (fun _ => True) { s with sent := s.sent ++ [clearCall address] } s' →
      Q status s') : wp (eraseFlashBlock chip address) Q E s := by
  rw [eraseFlashBlock, wp_bind, wp_call]
  refine Makes.wp ?_ hQ
  refine makes_ite (makes_bind (makes_call chip trivial) fun _ => makes_pure _) (makes_pure _)

end M37512

/-! ## How a run ends -/

/-- Nothing was wrong with the input file so far. -/
structure Calm (s : ToolState) : Prop where
  input : .inputError ∉ s.out
  size : .sizeError ∉ s.out

section

variable (destroys : Call → Bool)

/-- No destructive command was sent. -/
def Untouched (s : ToolState) : Prop := ∀ c ∈ s.sent, destroys c = false

/-- A destructive command was sent, and nothing was wrong with the input file. -/
structure Begun (s : ToolState) : Prop extends Calm s where
  sent : ∃ c ∈ s.sent, destroys c = true

/-- How a run ends that gets, or does not get, to its first destructive command. -/
structure RamEnds (reached : Prop) (s : ToolState) : Prop where
  begun : reached → Begun destroys s
  untouched : ¬ reached → Untouched destroys s

end

section

variable {destroys : Call → Bool} {kind : Call → Prop} {s s' : ToolState}

theorem Untouched.calls (h : Untouched destroys s)
    (hcalls : Calls (fun c => destroys c = false) s s') : Untouched destroys s' := by
  obtain ⟨new, hsent, hnew⟩ := hcalls.sent
  intro c hc
  rw [hsent] at hc
  rcases List.mem_append.mp hc with hc | hc
  · exact h c hc
  · exact hnew c hc

theorem Calm.calls (h : Calm s) (hcalls : Calls kind s s') : Calm s' :=
  ⟨hcalls.out ▸ h.input, hcalls.out ▸ h.size⟩

theorem Calm.print (h : Calm s) {line : Line} (hinput : line ≠ .inputError)
    (hsize : line ≠ .sizeError) : Calm { s with out := s.out ++ [line] } := by
  refine ⟨fun hmem => ?_, fun hmem => ?_⟩
  · rcases List.mem_append.mp hmem with hmem | hmem
    · exact h.input hmem
    · exact hinput (List.mem_singleton.mp hmem).symm
  · rcases List.mem_append.mp hmem with hmem | hmem
    · exact h.size hmem
    · exact hsize (List.mem_singleton.mp hmem).symm

theorem Begun.calls (h : Begun destroys s) (hcalls : Calls kind s s') : Begun destroys s' := by
  obtain ⟨new, hsent, -⟩ := hcalls.sent
  obtain ⟨c, hc, hdestroys⟩ := h.sent
  refine ⟨h.toCalm.calls hcalls, c, ?_, hdestroys⟩
  rw [hsent]
  exact List.mem_append_left _ hc

theorem Begun.print (h : Begun destroys s) {line : Line} (hinput : line ≠ .inputError)
    (hsize : line ≠ .sizeError) : Begun destroys { s with out := s.out ++ [line] } :=
  ⟨h.toCalm.print hinput hsize, h.sent⟩

/-- The first destructive command is sent. -/
theorem Calm.begin (h : Calm s) {c : Call} (hc : destroys c = true) :
    Begun destroys { s with sent := s.sent ++ [c] } :=
  ⟨⟨h.input, h.size⟩, c, List.mem_append_right _ List.mem_cons_self, hc⟩

theorem RamEnds.of_begun {reached : Prop} (h : reached) (hs : Begun destroys s) :
    RamEnds destroys reached s := ⟨fun _ => hs, fun hno => absurd h hno⟩

theorem RamEnds.of_untouched {reached : Prop} (h : ¬ reached) (hs : Untouched destroys s) :
    RamEnds destroys reached s := ⟨fun hyes => absurd hyes h, fun _ => hs⟩

end

/-! ## Getting to the flash -/

/-- The calls that open the device and look at the chip. -/
def ramOpening (v : RamVars) : List Call :=
  [.openDevice v.device, .enablePec 0, .readBlock cmdSbsChemistry]

/-- The size of the input file when it is opened.  It is that of the dump when this is the file. -/
def inputLength (files : Files) (v : RamVars) (name : List Char) : Option Nat :=
  if v.ramOut = some name then some (toSize v.opSize) else (files.input name).map List.length

/-- The dump, if there is one, is done.  A tool may want a size that is `aligned`. -/
def Dumps (aligned : Int → Prop) (files : Files) (v : RamVars) : Prop :=
  ∀ name, v.ramOut = some name →
    v.opAddress ≠ -1 ∧ v.opSize ≠ -1 ∧ aligned v.opSize ∧ files.output name = true

/-- The input file is opened, and is found to have the size. -/
def Found (files : Files) (v : RamVars) (name : List Char) : Prop :=
  ∃ n : Nat, inputLength files v name = some n ∧ toInt n = v.opSize

/-- `--write`, if it is given, gets past its checks. -/
structure Goes (aligned : Int → Prop) (files : Files) (v : RamVars) : Prop where
  confirmed : v.confirmDelete = true
  write : ∀ name, v.ramIn = some name → aligned v.opSize ∧ Found files v name

/-- The run gets to its first destructive command. -/
structure RamReaches (table : RamTable) (aligned : Int → Prop) (chip : Chip) (files : Files)
    (cmd : CommandLine RamOption) (v : RamVars) : Prop where
  args : cmd.argc ≠ 1
  options : ramOptions table cmd.opts .init = some v
  device : 0 ≤ chip.status ((ramOpening v).take 1)
  bootRom : (chip.block (ramOpening v)).status ≠ 4
  dump : Dumps aligned files v
  goes : Goes aligned files v
  erase : v.ramIn = none → v.opErase = true

/-- The calls that open the device destroy nothing. -/
structure Opening (destroys : Call → Bool) : Prop where
  device : ∀ name, destroys (.openDevice name) = false
  pec : ∀ state, destroys (.enablePec state) = false
  read : ∀ command, destroys (.readBlock command) = false

/-- What was saved when the dump is done. -/
def Dumped (v : RamVars) (saved : List (List Char × List Byte)) : Prop :=
  match v.ramOut with
  | none => saved = []
  | some name => ∃ data, data.length = toSize v.opSize ∧ saved = [(name, data)]

/-- What the run has done when it gets to the input file. -/
structure BeforeInput (destroys : Call → Bool) (v : RamVars) (s : ToolState) : Prop
    extends Calm s where
  untouched : Untouched destroys s
  dumped : Dumped v s.saved

section

variable {destroys : Call → Bool} {chip : Chip} {files : Files} {arrays : Arrays} {v : RamVars}

theorem wp_ramOpen (hdestroys : Opening destroys) {Q : Mem Byte → ToolState → Prop}
    {E : Int → ToolState → Prop}
    (hopens : ∀ block, 0 ≤ chip.status ((ramOpening v).take 1) →
      (chip.block (ramOpening v)).status ≠ 4 → Untouched destroys ⟨ramOpening v, [], []⟩ →
      Q block ⟨ramOpening v, [], []⟩)
    (hfails : ∀ code s, ¬ (0 ≤ chip.status ((ramOpening v).take 1) ∧
      (chip.block (ramOpening v)).status ≠ 4) → Untouched destroys s → E code s) :
    wp (ramOpen chip arrays v) Q E .init := by
  have huntouched : ∀ k out saved, Untouched destroys ⟨(ramOpening v).take k, out, saved⟩ := by
    intro k out saved c hc
    have hmem := List.mem_of_mem_take hc
    simp only [ramOpening, List.mem_cons, List.not_mem_nil, or_false] at hmem
    rcases hmem with rfl | rfl | rfl
    · exact hdestroys.device _
    · exact hdestroys.pec _
    · exact hdestroys.read _
  simp only [ramOpen, wp_ite, wp_bind, wp_print, wp_exit, wp_call, Tool.wp_readBlock, wp_pure]
  split
  · next hdevice =>
    exact hfails 0 _ (fun h => absurd h.1 (Int.not_le.mpr hdevice)) (huntouched 1 _ _)
  · next hdevice =>
    split
    · next hrom => exact hfails 1 _ (fun h => h.2 hrom) (huntouched 3 _ _)
    · next hrom => exact hopens _ (Int.not_lt.mp hdevice) hrom (huntouched 3 _ _)

/-- A run without a dump. -/
theorem BeforeInput.noDump {s : ToolState} (h : Untouched destroys s) (hout : s.out = [])
    (hsaved : s.saved = []) (hname : v.ramOut = none) : BeforeInput destroys v s := by
  refine ⟨⟨hout ▸ List.not_mem_nil, hout ▸ List.not_mem_nil⟩, h, ?_⟩
  rw [Dumped, hname]
  exact hsaved

/-- A dump reads the chip, may say what went wrong, and is saved. -/
theorem BeforeInput.ofDump {s s' : ToolState} {name : List Char} {data : List Byte}
    (h : Untouched destroys s) (hout : s.out = []) (hsaved : s.saved = [])
    (hcalls : Calls (fun c => destroys c = false) s s') (hname : v.ramOut = some name)
    (hdata : data.length = toSize v.opSize) {out : List Line}
    (hlines : out = s'.out ∨ ∃ status, out = s'.out ++ [.error status]) :
    BeforeInput destroys v ⟨s'.sent, out, s'.saved ++ [(name, data)]⟩ := by
  have huntouched := h.calls hcalls
  rw [hcalls.out, hout] at hlines
  refine ⟨⟨?_, ?_⟩, huntouched, ?_⟩
  · rcases hlines with rfl | ⟨status, rfl⟩ <;> simp
  · rcases hlines with rfl | ⟨status, rfl⟩ <;> simp
  · rw [Dumped, hname, hcalls.saved, hsaved]
    exact ⟨data, hdata, rfl⟩

variable (files) in
/-- The file that is found has the length. -/
theorem length_after {saved : List (List Char × List Byte)} (h : Dumped v saved)
    (name : List Char) :
    ((files.after saved).input name).map List.length = inputLength files v name := by
  unfold Dumped at h
  unfold inputLength
  cases hout : v.ramOut with
  | none =>
      rw [hout] at h
      subst h
      rfl
  | some name' =>
      rw [hout] at h
      obtain ⟨data, hlen, rfl⟩ := h
      by_cases hname : name' = name
      · subst hname
        simp [Files.after, hlen]
      · simp [Files.after, hname]

/-- The input file is opened, or the tool ends. -/
theorem wp_ramInput {Q : List Byte → ToolState → Prop} {E : Int → ToolState → Prop}
    {s : ToolState} {name : List Char} (hs : BeforeInput destroys v s)
    (hfound : ∀ file, Found files v name → Q file s)
    (hfails : ∀ code s', ¬ Found files v name → Untouched destroys s' → E code s') :
    wp (ramInput files name v.opSize) Q E s := by
  have hlen := length_after files hs.dumped name
  rw [ramInput, wp_bind, wp_get, wp_openSized]
  split
  · next hfile =>
    rw [hfile] at hlen
    refine hfails 3 _ ?_ hs.untouched
    rintro ⟨n, hn, -⟩
    rw [← hlen] at hn
    cases hn
  · next file hfile =>
    rw [hfile] at hlen
    split
    · next hsize =>
      refine hfails 4 _ ?_ hs.untouched
      rintro ⟨n, hn, hfits⟩
      rw [← hlen] at hn
      obtain rfl := Option.some.inj hn
      exact hsize hfits
    · next hsize => exact hfound file ⟨file.length, hlen.symm, Classical.not_not.mp hsize⟩

end

/-! ## The parts of a run -/

/-- What the parts of a run do, in the order of `main`. -/
structure Parts (destroys : Call → Bool) (aligned : Int → Prop) (files : Files) (v : RamVars)
    (dump : Mem Byte → Tool (Mem Byte)) (write : Mem Byte → Tool Unit)
    (eraseOrExit execute : Tool Unit) : Prop where
  opening : Opening destroys
  dump : ∀ block s, Untouched destroys s → s.out = [] → s.saved = [] →
    wp (dump block) (fun _ s' => Dumps aligned files v ∧ BeforeInput destroys v s')
      (fun _ s' => ¬ Dumps aligned files v ∧ Untouched destroys s') s
  skip : v.ramIn = none → ∀ block, write block = pure ()
  write : ∀ block s, v.ramIn ≠ none → BeforeInput destroys v s →
    wp (write block) (fun _ s' => Goes aligned files v ∧ Begun destroys s')
      (fun _ => RamEnds destroys (Goes aligned files v)) s
  erase : ∀ s, Calm s → wp eraseOrExit (fun _ => Begun destroys) (fun _ => Begun destroys) s
  execute : Makes (fun c => destroys c = false) execute

section

variable {destroys : Call → Bool} {aligned : Int → Prop} {chip : Chip} {files : Files}
  {arrays : Arrays} {v : RamVars} {cmd : CommandLine RamOption} {table : RamTable}
  {dump : Mem Byte → Tool (Mem Byte)} {write : Mem Byte → Tool Unit}
  {eraseOrExit execute : Tool Unit}

/-- Behind the first destructive command. -/
theorem Parts.begun (h : Parts destroys aligned files v dump write eraseOrExit execute)
    {s : ToolState} (hs : Begun destroys s) :
    wp (do
        ramErase v eraseOrExit
        execute) (fun _ => Begun destroys) (fun _ => Begun destroys) s := by
  have hexecute : ∀ {s}, Begun destroys s →
      wp execute (fun _ => Begun destroys) (fun _ => Begun destroys) s :=
    fun hs => h.execute.wp fun _ _ hcalls => hs.calls hcalls
  simp only [ramErase, wp_bind, wp_ite, wp_print, wp_exit, wp_pure]
  split
  · split
    · exact hs.print Line.noConfusion Line.noConfusion
    · exact wp_mono (h.erase s hs.toCalm) (fun _ _ hs' => hexecute hs') fun _ _ hs' => hs'
  · exact hexecute hs

/-- A run without `--write`. -/
theorem Parts.only_erase (h : Parts destroys aligned files v dump write eraseOrExit execute)
    {s : ToolState} (hs : BeforeInput destroys v s) :
    wp (do
        ramErase v eraseOrExit
        execute) (fun _ => RamEnds destroys (v.confirmDelete = true ∧ v.opErase = true))
      (fun _ => RamEnds destroys (v.confirmDelete = true ∧ v.opErase = true)) s := by
  simp only [ramErase, wp_bind, wp_ite, wp_print, wp_exit, wp_pure]
  split
  · next herase =>
    split
    · next hconfirm => exact .of_untouched (fun hgo => by simp [hgo.1] at hconfirm) hs.untouched
    · next hconfirm =>
      have hgo : v.confirmDelete = true ∧ v.opErase = true := ⟨by simpa using hconfirm, herase⟩
      refine wp_mono (h.erase s hs.toCalm) (fun _ s' hs' => ?_) fun _ _ hs' => .of_begun hgo hs'
      exact h.execute.wp fun _ _ hcalls => .of_begun hgo (hs'.calls hcalls)
  · next herase =>
    refine h.execute.wp fun _ s' hcalls => ?_
    exact .of_untouched (fun hgo => herase hgo.2) (hs.untouched.calls hcalls)

/-- A run is made of its parts. -/
theorem Parts.run_ends (h : Parts destroys aligned files v dump write eraseOrExit execute)
    (hargs : cmd.argc ≠ 1) (hoptions : ramOptions table cmd.opts .init = some v)
    {reached : Prop} (hreached : reached ↔ RamReaches table aligned chip files cmd v) :
    wp (do
        let block ← ramOpen chip arrays v
        let block ← dump block
        write block
        ramErase v eraseOrExit
        execute) (fun _ => RamEnds destroys reached) (fun _ => RamEnds destroys reached) .init := by
  rw [wp_bind]
  refine wp_ramOpen h.opening (fun block hdevice hrom hopened => ?_) fun _ s hno hs => ?_
  · rw [wp_bind]
    refine wp_mono (h.dump block _ hopened rfl rfl) ?_ ?_
    · rintro block s ⟨hdumps, hs⟩
      rw [wp_bind]
      cases hname : v.ramIn with
      | none =>
          have herase : v.confirmDelete = true ∧ v.opErase = true ↔ reached := by
            rw [hreached]
            refine ⟨fun hgo =>
              ⟨hargs, hoptions, hdevice, hrom, hdumps, ⟨hgo.1, ?_⟩, fun _ => hgo.2⟩,
              fun hgo => ⟨hgo.goes.confirmed, hgo.erase hname⟩⟩
            intro name hname'
            rw [hname] at hname'
            cases hname'
          rw [h.skip hname, wp_pure, ← propext herase]
          exact h.only_erase hs
      | some name =>
          have hsome : v.ramIn ≠ none := by
            rw [hname]
            exact Option.some_ne_none name
          have hgoes : Goes aligned files v ↔ reached := by
            rw [hreached]
            exact ⟨fun hgo => ⟨hargs, hoptions, hdevice, hrom, hdumps, hgo,
              fun hnone => absurd hnone hsome⟩, fun hgo => hgo.goes⟩
          rw [← propext hgoes]
          refine wp_mono (h.write block s hsome hs) ?_ fun _ _ h => h
          rintro - s' ⟨hgo, hbegun⟩
          exact wp_mono (h.begun hbegun) (fun _ _ h => .of_begun hgo h) fun _ _ h =>
            .of_begun hgo h
    · rintro - s ⟨hno, hs⟩
      exact .of_untouched (fun hgo => hno (hreached.mp hgo).dump) hs
  · exact .of_untouched (fun hgo => hno ⟨(hreached.mp hgo).device, (hreached.mp hgo).bootRom⟩) hs

/-- The options, and a run behind them. -/
theorem main_ends {run : RamVars → Tool Unit} {reached : Prop}
    (hreached : reached ↔ ∃ v, RamReaches table aligned chip files cmd v)
    (hrun : ∀ v, cmd.argc ≠ 1 → ramOptions table cmd.opts .init = some v →
      (reached ↔ RamReaches table aligned chip files cmd v) →
      wp (run v) (fun _ => RamEnds destroys reached) (fun _ => RamEnds destroys reached) .init) :
    wp (if cmd.argc = 1 then exit 1
      else
        match ramOptions table cmd.opts .init with
        | none => exit 0
        | some v => run v) (fun _ => RamEnds destroys reached)
      (fun _ => RamEnds destroys reached) .init := by
  have hinit : Untouched destroys .init := fun _ hc => absurd hc List.not_mem_nil
  rw [wp_ite]
  split
  · next hargs =>
    refine .of_untouched (fun hgo => ?_) hinit
    obtain ⟨v, hv⟩ := hreached.mp hgo
    exact hv.args hargs
  · next hargs =>
    split
    · next hoptions =>
      refine .of_untouched (fun hgo => ?_) hinit
      obtain ⟨v, hv⟩ := hreached.mp hgo
      exact Option.some_ne_none v (hv.options.symm.trans hoptions)
    · next v hoptions =>
      refine hrun v hargs hoptions (hreached.trans ⟨?_, fun hv => ⟨v, hv⟩⟩)
      rintro ⟨v', hv'⟩
      rwa [Option.some.inj (hv'.options.symm.trans hoptions)] at hv'

end

/-! ## smbusb_r2j240flasher -/

namespace R2j240

section

variable {chip : Chip} {files : Files} {arrays : Arrays} {v : RamVars} {s : ToolState}

/-- Any size will do. -/
def Aligned (_ : Int) : Prop := True

theorem opening_destroys : Opening R2j240.destroys := ⟨fun _ => rfl, fun _ => rfl, fun _ => rfl⟩

theorem reads_readRam (address size : UInt) (buf : Mem Byte) :
    Makes (fun c => R2j240.destroys c = false) (readRam chip address size buf) :=
  makes_readRam chip (fun _ _ => rfl) address size buf

theorem dump_ends (block : Mem Byte) (hs : Untouched R2j240.destroys s) (hout : s.out = [])
    (hsaved : s.saved = []) : wp (dump chip files v block)
      (fun _ s' => Dumps Aligned files v ∧ BeforeInput R2j240.destroys v s')
      (fun _ s' => ¬ Dumps Aligned files v ∧ Untouched R2j240.destroys s') s := by
  rw [dump]
  split
  · next hname =>
    refine ⟨fun name h => ?_, .noDump hs hout hsaved hname⟩
    rw [hname] at h
    cases h
  · next name hname =>
    simp only [wp_ite, wp_bind, wp_print, wp_exit, wp_save, wp_pure]
    split
    · next hmissing =>
      refine ⟨fun h => ?_, hs⟩
      obtain ⟨haddress, hsize, -⟩ := h name hname
      exact hmissing.elim haddress hsize
    · next hgiven =>
      split
      · next houtput =>
        have hdumps : Dumps Aligned files v := by
          intro name' hname'
          obtain rfl := Option.some.inj (hname.symm.trans hname')
          exact ⟨fun h => hgiven (.inl h), fun h => hgiven (.inr h), trivial, houtput⟩
        refine (reads_readRam _ _ _).wp ?_
        rintro ⟨status, block'⟩ s' hcalls
        split
        · exact ⟨hdumps, .ofDump hs hout hsaved hcalls hname (by simp) (.inr ⟨_, rfl⟩)⟩
        · exact ⟨hdumps, .ofDump hs hout hsaved hcalls hname (by simp) (.inl rfl)⟩
      · next houtput => exact ⟨fun h => houtput (h name hname).2.2.2, hs⟩

/-- What follows the erase, in `write`. -/
theorem verify_begun (block : Mem Byte) (hs : Begun R2j240.destroys s) :
    wp (verify chip arrays v block) (fun _ => Begun R2j240.destroys)
      (fun _ => Begun R2j240.destroys) s := by
  simp only [verify, wp_ite, wp_bind, wp_pure]
  split
  · refine (reads_readRam _ _ _).wp fun r s' hcalls => ?_
    have hs' := hs.calls hcalls
    simp only [wp_print]
    split
    · exact hs'.print Line.noConfusion Line.noConfusion
    · exact hs'.print Line.noConfusion Line.noConfusion
  · exact hs

theorem eraseOrExit_begun (hs : Calm s) :
    wp (eraseOrExit chip arrays v) (fun _ => Begun R2j240.destroys)
      (fun _ => Begun R2j240.destroys) s := by
  rw [eraseOrExit, wp_bind]
  refine wp_eraseFlashBlock chip fun status s' hcalls => ?_
  have herased : Begun R2j240.destroys s' := (hs.begin rfl).calls hcalls
  simp only [wp_ite, wp_bind, wp_print, wp_exit, wp_pure]
  split
  · exact herased.print Line.noConfusion Line.noConfusion
  · exact herased

/-- Once the erase is sent, the rest of `write` does not complain about the file. -/
theorem write_ends (block : Mem Byte) (hname : v.ramIn ≠ none)
    (hs : BeforeInput R2j240.destroys v s) :
    wp (write chip files arrays v block)
      (fun _ s' => Goes Aligned files v ∧ Begun R2j240.destroys s')
      (fun _ => RamEnds R2j240.destroys (Goes Aligned files v)) s := by
  rw [write]
  split
  · next hnone => exact absurd hnone hname
  · next name hname =>
    simp only [wp_ite, wp_bind, wp_print, wp_exit]
    split
    · next hconfirm =>
      refine .of_untouched (fun hgo => ?_) hs.untouched
      simp [hgo.confirmed] at hconfirm
    · next hconfirm =>
      refine wp_ramInput hs (fun file hfound => ?_) fun _ s' hno hs' => ?_
      · have hgo : Goes Aligned files v := by
          refine ⟨by simpa using hconfirm, fun name' hname' => ?_⟩
          obtain rfl := Option.some.inj (hname.symm.trans hname')
          exact ⟨trivial, hfound⟩
        refine wp_mono (eraseOrExit_begun hs.toCalm) (fun _ s' herased => ?_)
          fun _ _ h => .of_begun hgo h
        refine (makes_writeRam chip _ _ _).wp fun status s'' hcalls => ?_
        have hwritten := herased.calls hcalls
        have hverify : ∀ {block s₁}, Begun R2j240.destroys s₁ → wp (verify chip arrays v block)
            (fun _ s' => Goes Aligned files v ∧ Begun R2j240.destroys s')
            (fun _ => RamEnds R2j240.destroys (Goes Aligned files v)) s₁ := fun h =>
          wp_mono (verify_begun _ h) (fun _ _ h => ⟨hgo, h⟩) fun _ _ h => .of_begun hgo h
        split
        · exact hverify (hwritten.print Line.noConfusion Line.noConfusion)
        · exact hverify hwritten
      · exact .of_untouched (fun hgo => hno (hgo.write name hname).2) hs'

theorem parts (files : Files) (arrays : Arrays) (v : RamVars) :
    Parts R2j240.destroys Aligned files v (dump chip files v) (write chip files arrays v)
      (eraseOrExit chip arrays v) (execute chip v) where
  opening := opening_destroys
  dump block s hs hout hsaved := dump_ends block hs hout hsaved
  skip hname block := by rw [write, hname]
  write block s hname hs := write_ends block hname hs
  erase s hs := eraseOrExit_begun hs
  execute := makes_ite (makes_bind (makes_call chip rfl) fun _ => makes_pure _) (makes_pure _)

end

end R2j240

/-! ## smbusb_m37512flasher -/

namespace M37512

section

variable {chip : Chip} {files : Files} {arrays : Arrays} {v : RamVars} {s : ToolState}

/-- `opSize % CHUNKLEN == 0`. -/
def Aligned (size : Int) : Prop := size.tmod chunkLen = 0

theorem opening_destroys : Opening M37512.destroys := ⟨fun _ => rfl, fun _ => rfl, fun _ => rfl⟩

theorem dump_ends (block : Mem Byte) (hs : Untouched M37512.destroys s) (hout : s.out = [])
    (hsaved : s.saved = []) : wp (dump chip files arrays v block)
      (fun _ s' => Dumps Aligned files v ∧ BeforeInput M37512.destroys v s')
      (fun _ s' => ¬ Dumps Aligned files v ∧ Untouched M37512.destroys s') s := by
  rw [dump]
  split
  · next hname =>
    refine ⟨fun name h => ?_, .noDump hs hout hsaved hname⟩
    rw [hname] at h
    cases h
  · next name hname =>
    simp only [wp_ite, wp_bind, wp_print, wp_exit, wp_save, wp_pure]
    split
    · next hmissing =>
      refine ⟨fun h => ?_, hs⟩
      obtain ⟨haddress, hsize, -⟩ := h name hname
      exact hmissing.elim haddress hsize
    · next hgiven =>
      split
      · next hunaligned => exact ⟨fun h => hunaligned (h name hname).2.2.1, hs⟩
      · next haligned =>
        split
        · next houtput =>
          have hdumps : Dumps Aligned files v := by
            intro name' hname'
            obtain rfl := Option.some.inj (hname.symm.trans hname')
            exact ⟨fun h => hgiven (.inl h), fun h => hgiven (.inr h),
              Classical.not_not.mp haligned, houtput⟩
          refine (reads_readFlash chip _ _ _).wp ?_
          rintro ⟨status, block'⟩ s' hcalls
          split
          · exact ⟨hdumps, .ofDump hs hout hsaved hcalls hname (by simp) (.inr ⟨_, rfl⟩)⟩
          · exact ⟨hdumps, .ofDump hs hout hsaved hcalls hname (by simp) (.inl rfl)⟩
        · next houtput => exact ⟨fun h => houtput (h name hname).2.2.2, hs⟩

/-- What follows the erase, in `write`. -/
theorem verify_begun (block : Mem Byte) (hs : Begun M37512.destroys s) :
    wp (verify chip arrays v block) (fun _ => Begun M37512.destroys)
      (fun _ => Begun M37512.destroys) s := by
  simp only [verify, wp_ite, wp_bind, wp_pure]
  split
  · refine (reads_readFlash chip _ _ _).wp fun r s' hcalls => ?_
    have hs' := hs.calls hcalls
    simp only [wp_print, wp_exit]
    split
    · exact hs'.print Line.noConfusion Line.noConfusion
    · split
      · exact hs'.print Line.noConfusion Line.noConfusion
      · exact hs'.print Line.noConfusion Line.noConfusion
  · exact hs

theorem eraseOrExit_begun (hs : Calm s) :
    wp (eraseOrExit chip v) (fun _ => Begun M37512.destroys)
      (fun _ => Begun M37512.destroys) s := by
  rw [eraseOrExit, wp_bind]
  refine wp_eraseFlashBlock chip fun status s' hcalls => ?_
  have herased : Begun M37512.destroys s' := (hs.begin rfl).calls hcalls
  simp only [wp_ite, wp_bind, wp_print, wp_exit, wp_pure]
  split
  · refine wp_eraseFlashBlock chip fun status s'' hcalls => ?_
    have hagain : Begun M37512.destroys s'' := (herased.toCalm.begin rfl).calls hcalls
    exact hagain.print Line.noConfusion Line.noConfusion
  · exact herased

/-- Once the erase is sent, the rest of `write` does not complain about the file. -/
theorem write_ends (block : Mem Byte) (hname : v.ramIn ≠ none)
    (hs : BeforeInput M37512.destroys v s) :
    wp (write chip files arrays v block)
      (fun _ s' => Goes Aligned files v ∧ Begun M37512.destroys s')
      (fun _ => RamEnds M37512.destroys (Goes Aligned files v)) s := by
  rw [write]
  split
  · next hnone => exact absurd hnone hname
  · next name hname =>
    simp only [wp_ite, wp_bind, wp_print, wp_exit]
    split
    · next hunaligned =>
      exact .of_untouched (fun hgo => hunaligned (hgo.write name hname).1) hs.untouched
    · next haligned =>
      split
      · next hconfirm =>
        refine .of_untouched (fun hgo => ?_) hs.untouched
        simp [hgo.confirmed] at hconfirm
      · next hconfirm =>
        refine wp_ramInput hs (fun file hfound => ?_) fun _ s' hno hs' => ?_
        · have hgo : Goes Aligned files v := by
            refine ⟨by simpa using hconfirm, fun name' hname' => ?_⟩
            obtain rfl := Option.some.inj (hname.symm.trans hname')
            exact ⟨Classical.not_not.mp haligned, hfound⟩
          refine wp_mono (eraseOrExit_begun hs.toCalm) (fun _ s' herased => ?_)
            fun _ _ h => .of_begun hgo h
          refine (makes_writeFlash chip _ _ _).wp fun status s'' hcalls => ?_
          have hwritten := herased.calls hcalls
          have hverify : ∀ {block s₁}, Begun M37512.destroys s₁ →
              wp (verify chip arrays v block)
                (fun _ s' => Goes Aligned files v ∧ Begun M37512.destroys s')
                (fun _ => RamEnds M37512.destroys (Goes Aligned files v)) s₁ := fun h =>
            wp_mono (verify_begun _ h) (fun _ _ h => ⟨hgo, h⟩) fun _ _ h => .of_begun hgo h
          split
          · exact hverify (hwritten.print Line.noConfusion Line.noConfusion)
          · exact hverify hwritten
        · exact .of_untouched (fun hgo => hno (hgo.write name hname).2) hs'

theorem parts (files : Files) (arrays : Arrays) (v : RamVars) :
    Parts M37512.destroys Aligned files v (dump chip files arrays v) (write chip files arrays v)
      (eraseOrExit chip v) (pure ()) where
  opening := opening_destroys
  dump block s hs hout hsaved := dump_ends block hs hout hsaved
  skip hname block := by rw [write, hname]
  write block s hname hs := write_ends block hname hs
  erase s hs := eraseOrExit_begun hs
  execute := makes_pure ()

end

end M37512

/-! ## Whole runs -/

section

variable (chip : Chip) (files : Files) (arrays : Arrays) (cmd : CommandLine RamOption)

/-- How a run of `smbusb_r2j240flasher` ends. -/
theorem r2j240_ends : RamEnds R2j240.destroys
    (∃ v, RamReaches R2j240.table R2j240.Aligned chip files cmd v)
    (R2j240.r2j240flasher chip files arrays cmd) :=
  endState_of_wp <| main_ends Iff.rfl fun v hargs hoptions hreached =>
    (R2j240.parts files arrays v).run_ends hargs hoptions hreached

/-- How a run of `smbusb_m37512flasher` ends. -/
theorem m37512_ends : RamEnds M37512.destroys
    (∃ v, RamReaches M37512.table M37512.Aligned chip files cmd v)
    (M37512.m37512flasher chip files arrays cmd) := by
  refine endState_of_wp <| main_ends Iff.rfl fun v hargs hoptions hreached => ?_
  have hparts : M37512.run chip files arrays v = (do
      let block ← ramOpen chip arrays v
      let block ← M37512.dump chip files arrays v block
      M37512.write chip files arrays v block
      M37512.erase chip v
      pure ()) := by
    simp only [bind_pure_unit]
    rfl
  rw [hparts]
  exact (M37512.parts files arrays v).run_ends hargs hoptions hreached

end

end Smbusb
