import Smbusb.Tools.FlashTransfers

/-!
# Stopping at the first failure

Once a command that erases or writes has failed, a flasher should send no other (`StopsAtFailure`).
`smbusb_m37512flasher` sends the erase again when it fails, to print the status of the second try,
and it erases behind a write that failed when `--erase` is given too.  `stopsAtFailure_iff` says in
which runs this does not happen.
-/

namespace Smbusb

open Logic Prog Tool

/-! ## Failures among some calls -/

section

variable (destroys : Call → Bool) (chip : Chip)

/-- Behind a destructive call that fails there is no other. -/
def StopsAtFailure (sent : List Call) : Prop :=
  ∀ a c b, sent = a ++ c :: b → destroys c = true → chip.status (a ++ [c]) < 0 →
    ∀ c' ∈ b, destroys c' = false

/-- No destructive call fails. -/
def NoFailure (sent : List Call) : Prop :=
  ∀ a c b, sent = a ++ c :: b → destroys c = true → 0 ≤ chip.status (a ++ [c])

variable {destroys chip} {sent : List Call} {c : Call}

theorem noFailure_nil : NoFailure destroys chip [] := by
  intro a c b h
  exact absurd h.symm (List.append_ne_nil_of_right_ne_nil a (List.cons_ne_nil c b))

/-- A call among some, of which one is the last. -/
theorem append_singleton_split {A : Type} {l a b : List A} {x y : A}
    (h : l ++ [x] = a ++ y :: b) :
    l = a ∧ x = y ∧ b = [] ∨ ∃ b', b = b' ++ [x] ∧ l = a ++ y :: b' := by
  rcases List.eq_nil_or_concat b with rfl | ⟨b', z, rfl⟩
  · obtain ⟨rfl, heq⟩ := List.append_inj' h rfl
    exact .inl ⟨rfl, List.head_eq_of_cons_eq heq, rfl⟩
  · rw [List.concat_eq_append, ← List.cons_append, ← List.append_assoc] at h
    obtain ⟨rfl, heq⟩ := List.append_inj' h rfl
    obtain rfl := List.head_eq_of_cons_eq heq
    exact .inr ⟨b', List.concat_eq_append, rfl⟩

theorem noFailure_concat : NoFailure destroys chip (sent ++ [c]) ↔
    NoFailure destroys chip sent ∧ (destroys c = true → 0 ≤ chip.status (sent ++ [c])) := by
  constructor
  · intro h
    refine ⟨fun a c' b hsent => h a c' (b ++ [c]) ?_, h sent c [] rfl⟩
    rw [hsent, List.append_assoc, List.cons_append]
  · rintro ⟨hsent, hlast⟩ a c' b hsplit
    rcases append_singleton_split hsplit with ⟨rfl, rfl, rfl⟩ | ⟨b', rfl, hbefore⟩
    · exact hlast
    · exact hsent a c' b' hbefore

theorem stopsAtFailure_concat : StopsAtFailure destroys chip (sent ++ [c]) ↔
    StopsAtFailure destroys chip sent ∧ (destroys c = true → NoFailure destroys chip sent) := by
  constructor
  · intro h
    refine ⟨fun a c' b hsent hc' hfails c'' hmem => ?_, fun hc a c' b hsent hc' => ?_⟩
    · refine h a c' (b ++ [c]) ?_ hc' hfails c'' (List.mem_append_left _ hmem)
      rw [hsent, List.append_assoc, List.cons_append]
    · by_contra hneg
      have hharmless := h a c' (b ++ [c]) (by rw [hsent, List.append_assoc, List.cons_append]) hc'
        (Int.not_le.mp hneg) c (List.mem_append_right _ List.mem_cons_self)
      rw [hc] at hharmless
      cases hharmless
  · rintro ⟨hsent, hlast⟩ a c' b hsplit hc' hfails c'' hmem
    rcases append_singleton_split hsplit with ⟨rfl, rfl, rfl⟩ | ⟨b', rfl, hbefore⟩
    · exact absurd hmem List.not_mem_nil
    · rcases List.mem_append.mp hmem with hmem | hmem
      · exact hsent a c' b' hbefore hc' hfails c'' hmem
      · obtain rfl := List.mem_singleton.mp hmem
        refine Bool.eq_false_iff.mpr fun hc => ?_
        exact absurd hfails (Int.not_lt.mpr (hlast hc a c' b' hbefore hc'))

/-- Calls that destroy nothing change nothing. -/
theorem noFailure_append {new : List Call} (h : ∀ c ∈ new, destroys c = false) :
    NoFailure destroys chip (sent ++ new) ↔ NoFailure destroys chip sent := by
  induction new using List.reverseRecOn with
  | nil => rw [List.append_nil]
  | append_singleton new c ih =>
      have hc := h c (List.mem_append_right _ List.mem_cons_self)
      rw [← List.append_assoc, noFailure_concat,
        ih fun c' hc' => h c' (List.mem_append_left _ hc'), hc]
      exact and_iff_left fun h => absurd h Bool.false_ne_true

theorem stopsAtFailure_append {new : List Call} (h : ∀ c ∈ new, destroys c = false) :
    StopsAtFailure destroys chip (sent ++ new) ↔ StopsAtFailure destroys chip sent := by
  induction new using List.reverseRecOn with
  | nil => rw [List.append_nil]
  | append_singleton new c ih =>
      have hc := h c (List.mem_append_right _ List.mem_cons_self)
      rw [← List.append_assoc, stopsAtFailure_concat,
        ih fun c' hc' => h c' (List.mem_append_left _ hc'), hc]
      exact and_iff_left fun h => absurd h Bool.false_ne_true

/-- Without a failure there is nothing to stop at. -/
theorem NoFailure.stops (h : NoFailure destroys chip sent) : StopsAtFailure destroys chip sent :=
  fun a c b hsent hc hfails => absurd hfails (Int.not_lt.mpr (h a c b hsent hc))

/-- What has not stopped does not stop later. -/
theorem StopsAtFailure.before {new : List Call} (h : StopsAtFailure destroys chip (sent ++ new)) :
    StopsAtFailure destroys chip sent := by
  induction new using List.reverseRecOn with
  | nil => rwa [List.append_nil] at h
  | append_singleton new c ih =>
      rw [← List.append_assoc, stopsAtFailure_concat] at h
      exact ih h.1

theorem noFailure_of_untouched (h : ∀ c ∈ sent, destroys c = false) :
    NoFailure destroys chip sent :=
  (List.nil_append sent) ▸ (noFailure_append h).mpr noFailure_nil

end

namespace M37512

/-! ## The runs of smbusb_m37512flasher -/

section

variable (chip : Chip) (files : Files) (arrays : Arrays) (v : RamVars)

/-- `block` when the device is open. -/
def openBlock : Mem Byte :=
  (arrays.block.write 0 (List.replicate 255 0)).write 0 (chip.block (ramOpening v)).data

/-- The chunks of the range. -/
def rangeCount : Nat := chunkCount v.opSize

/-- `block` behind the dump. -/
def dumpBlock : Mem Byte :=
  match v.ramOut with
  | none => openBlock chip arrays v
  | some _ => (openBlock chip arrays v).write 0 (chunkData chip arrays (ramOpening v) v.opAddress
      ((readBurst v.opAddress).passed chip (ramOpening v) (rangeCount v)))

/-- The calls before the first erase. -/
def beforeErase : List Call :=
  match v.ramOut with
  | none => ramOpening v
  | some _ => ramOpening v ++ (readBurst v.opAddress).sent chip (ramOpening v) (rangeCount v)

/-- What the input file holds when it is opened: a dump of the same name was written to it. -/
def inputBytes (name : List Char) : Option (List Byte) :=
  if v.ramOut = some name then some ((dumpBlock chip arrays v).read 0 (toSize v.opSize))
  else files.input name

/-- `block` when it is written. -/
def inputBlock (name : List Char) : Mem Byte :=
  (dumpBlock chip arrays v).write 0
    (((inputBytes chip files arrays v name).getD []).take (toSize v.opSize))

/-- The calls when an erase has succeeded. -/
def erased (calls : List Call) : List Call :=
  calls ++ [clearCall v.opAddress] ++ [.readByte cmdReadClearStatusRegister]

/-- The calls when `block` was written behind these. -/
def written (block : Mem Byte) (calls : List Call) : List Call :=
  calls ++ (writeBurst v.opAddress block).sent chip calls (rangeCount v)

/-- The calls when the range was verified behind these. -/
def verified (calls : List Call) : List Call :=
  if v.noVerify then calls
  else calls ++ (readBurst v.opAddress).sent chip calls (rangeCount v)

/-- An erase behind these calls succeeds. -/
def Erases (calls : List Call) : Prop := 0 ≤ chip.status (calls ++ [clearCall v.opAddress])

/-- The run goes on behind a verification: none is asked for, or the range can be read. -/
def VerifyGoes (calls : List Call) : Prop :=
  v.noVerify = true ∨
    0 ≤ v.opSize ∧ (readBurst v.opAddress).Passes chip calls (rangeCount v)

/-- What has to succeed when a file is written: the first erase, and, when the run goes on to a
second one, the writes and that one. -/
structure WriteStops (block : Mem Byte) (calls : List Call) : Prop where
  first : Erases chip v calls
  second : v.opErase = true →
    VerifyGoes chip v (written chip v block (erased v calls)) →
    (writeBurst v.opAddress block).Passes chip (erased v calls) (rangeCount v) ∧
      Erases chip v (verified chip v (written chip v block (erased v calls)))

/-- The runs, of those that get to an erase, that stop at the first failure. -/
def RunStops : Prop :=
  match v.ramIn with
  | none => Erases chip v (beforeErase chip v)
  | some name => WriteStops chip v (inputBlock chip files arrays v name) (beforeErase chip v)

end

section

variable {chip : Chip} {files : Files} {arrays : Arrays} {v : RamVars} {s : ToolState}
  {E : Int → ToolState → Prop} {cmd : CommandLine RamOption}

/-! ### The parts of a run -/

theorem wp_opened {Q : Mem Byte → ToolState → Prop}
    (hdevice : 0 ≤ chip.status ((ramOpening v).take 1))
    (hrom : (chip.block (ramOpening v)).status ≠ 4)
    (hQ : Q (openBlock chip arrays v) ⟨ramOpening v, [], []⟩) :
    wp (ramOpen chip arrays v) Q E .init := by
  simp only [ramOpen, wp_ite, wp_bind, wp_print, wp_exit, wp_call, Tool.wp_readBlock, wp_pure]
  split
  · next hneg => exact absurd hdevice (Int.not_le.mpr hneg)
  · split
    · next hruns => exact absurd hruns hrom
    · exact hQ

/-- What is saved by the dump. -/
def dumpSaved (chip : Chip) (arrays : Arrays) (v : RamVars) : List (List Char × List Byte) :=
  match v.ramOut with
  | none => []
  | some name => [(name, (dumpBlock chip arrays v).read 0 (toSize v.opSize))]

theorem wp_dumped {Q : Mem Byte → ToolState → Prop} (hdumps : Dumps Aligned files v)
    (hQ : ∀ out, Q (dumpBlock chip arrays v)
      ⟨beforeErase chip v, out, dumpSaved chip arrays v⟩) :
    wp (dump chip files arrays v (openBlock chip arrays v)) Q E ⟨ramOpening v, [], []⟩ := by
  rw [dump]
  cases hname : v.ramOut with
  | none =>
      have hend := hQ []
      simp only [dumpBlock, beforeErase, dumpSaved, hname] at hend
      exact hend
  | some name =>
      obtain ⟨haddress, hsize, haligned, houtput⟩ := hdumps name hname
      simp only [dumpBlock, beforeErase, dumpSaved, hname] at hQ
      dsimp only
      have hmod : v.opSize.tmod chunkLen = 0 := haligned
      rw [if_neg (not_or.mpr ⟨haddress, hsize⟩), if_neg (not_not_intro hmod), if_pos houtput,
        wp_bind]
      refine wp_readFlash haligned (fun hpass => ?_) fun hfail => ?_
      · rw [rangeCount, Burst.passed_of_passes hpass] at hQ
        simp only [wp_bind, wp_ite, wp_print, wp_save, wp_pure]
        split
        · exact hQ _
        · exact hQ _
      · simp only [wp_bind, wp_ite, wp_print, wp_save, wp_pure]
        split
        · exact hQ _
        · exact hQ _

/-- The input file is what `inputBytes` says. -/
theorem wp_input {Q : List Byte → ToolState → Prop} {name : List Char} {out : List Line}
    {calls : List Call} (hfound : Found files v name)
    (hQ : ∀ file, inputBytes chip files arrays v name = some file →
      Q file ⟨calls, out, dumpSaved chip arrays v⟩) :
    wp (ramInput files name v.opSize) Q E ⟨calls, out, dumpSaved chip arrays v⟩ := by
  have hafter : (files.after (dumpSaved chip arrays v)).input name =
      inputBytes chip files arrays v name := by
    unfold inputBytes dumpSaved
    cases hout : v.ramOut with
    | none => rfl
    | some name' =>
        by_cases hname : name' = name
        · simp [Files.after, hname]
        · simp [Files.after, hname]
  obtain ⟨n, hn, hfits⟩ := hfound
  have hlength : (inputBytes chip files arrays v name).map List.length =
      inputLength files v name := by
    unfold inputBytes inputLength
    split
    · rw [Option.map_some, Mem.length_read]
    · rfl
  rw [hn] at hlength
  obtain ⟨file, hfile, hlen⟩ := Option.map_eq_some_iff.mp hlength
  rw [ramInput, wp_bind, wp_get, wp_openSized, hafter, hfile]
  dsimp only
  rw [if_neg (not_not_intro (by rw [hlen]; exact hfits))]
  exact hQ file hfile

/-- An erase that succeeds lets the run go on; one that fails is sent twice. -/
theorem wp_eraseOrExit {Q : Unit → ToolState → Prop}
    (hgoes : Erases chip v s.sent → Q () { s with sent := erased v s.sent })
    (hfails : ¬ Erases chip v s.sent → ∀ s' new,
      s'.sent = s.sent ++ [clearCall v.opAddress] ++ [clearCall v.opAddress] ++ new → E 0 s') :
    wp (eraseOrExit chip v) Q E s := by
  simp only [eraseOrExit, eraseFlashBlock, readClearStatusRegister, wp_bind, wp_call, wp_ite,
    wp_pure, wp_print, wp_exit]
  split
  · next hnonneg =>
    rw [if_neg (Int.not_lt.mpr hnonneg)]
    exact hgoes hnonneg
  · next hneg =>
    rw [if_pos (Int.not_le.mp hneg)]
    split
    · exact hfails hneg _ [_] rfl
    · exact hfails hneg _ [] (List.append_nil _).symm

theorem wp_verify {Q : Unit → ToolState → Prop} {block : Mem Byte} (haligned : Aligned v.opSize)
    (hgoes : VerifyGoes chip v s.sent → ∀ out,
      Q () ⟨verified chip v s.sent, out, s.saved⟩)
    (hends : ¬ VerifyGoes chip v s.sent → ∀ out, E 0 ⟨verified chip v s.sent, out, s.saved⟩) :
    wp (verify chip arrays v block) Q E s := by
  unfold verified VerifyGoes at *
  rw [verify]
  cases hverify : v.noVerify with
  | true =>
      simp only [hverify, if_true, true_or, true_imp_iff] at hgoes
      exact hgoes s.out
  | false =>
      simp only [hverify, Bool.false_eq_true, if_false, false_or] at hgoes hends
      simp only [Bool.not_false, if_true, wp_bind]
      refine wp_readFlash haligned (fun hpass => ?_) fun hfail => ?_
      · simp only [wp_ite, wp_bind, wp_print, wp_exit]
        split
        · next hneg => exact hends (fun h => Int.not_lt.mpr h.1 hneg) _
        · next hnonneg =>
          have hend := hgoes ⟨Int.not_lt.mp hnonneg, hpass⟩
          split
          · exact hend _
          · exact hend _
      · simp only [wp_ite, wp_bind, wp_print, wp_exit]
        rw [if_pos (by decide)]
        exact hends (fun h => hfail h.2) _

/-- Everything behind the dump, when a file is written. -/
theorem wp_write {Q : Unit → ToolState → Prop} {name : List Char} {out : List Line}
    (hname : v.ramIn = some name) (hgo : Goes Aligned files v)
    (hfails : ¬ Erases chip v (beforeErase chip v) → ∀ s' new, s'.sent =
      beforeErase chip v ++ [clearCall v.opAddress] ++ [clearCall v.opAddress] ++ new → E 0 s')
    (hends : Erases chip v (beforeErase chip v) →
      ¬ VerifyGoes chip v (written chip v (inputBlock chip files arrays v name)
        (erased v (beforeErase chip v))) →
      ∀ s', s'.sent = verified chip v (written chip v (inputBlock chip files arrays v name)
        (erased v (beforeErase chip v))) → E 0 s')
    (hgoes : Erases chip v (beforeErase chip v) →
      VerifyGoes chip v (written chip v (inputBlock chip files arrays v name)
        (erased v (beforeErase chip v))) →
      ∀ s', s'.sent = verified chip v (written chip v (inputBlock chip files arrays v name)
        (erased v (beforeErase chip v))) → Q () s') :
    wp (write chip files arrays v (dumpBlock chip arrays v)) Q E
      ⟨beforeErase chip v, out, dumpSaved chip arrays v⟩ := by
  obtain ⟨haligned, hfound⟩ := hgo.write name hname
  have hmod : v.opSize.tmod chunkLen = 0 := haligned
  rw [write, hname]
  dsimp only
  rw [if_neg (not_not_intro hmod), if_neg (by simp [hgo.confirmed]), wp_bind]
  refine wp_input hfound fun file hfile => ?_
  have hblock : (dumpBlock chip arrays v).write 0 (file.take (toSize v.opSize)) =
      inputBlock chip files arrays v name := by
    rw [inputBlock, hfile, Option.getD_some]
  rw [wp_bind, hblock]
  refine wp_eraseOrExit (fun herases => ?_) fun hno s' new hsent => hfails hno s' new hsent
  have hverify : ∀ out, wp (verify chip arrays v (inputBlock chip files arrays v name)) Q E
      ⟨written chip v (inputBlock chip files arrays v name) (erased v (beforeErase chip v)), out,
        dumpSaved chip arrays v⟩ := fun out =>
    wp_verify haligned (fun h _ => hgoes herases h _ rfl) fun h _ => hends herases h _ rfl
  rw [wp_bind]
  refine wp_writeFlash haligned (fun _ => ?_) fun _ status _ => ?_
  · simp only [wp_ite, wp_bind, wp_print]
    split
    · exact hverify _
    · exact hverify _
  · simp only [wp_ite, wp_bind, wp_print]
    split
    · exact hverify _
    · exact hverify _

/-- `--erase`. -/
theorem wp_erase {Q : Unit → ToolState → Prop} (hconfirm : v.confirmDelete = true)
    (hskips : v.opErase = false → Q () s)
    (hgoes : v.opErase = true → Erases chip v s.sent → Q () { s with sent := erased v s.sent })
    (hfails : v.opErase = true → ¬ Erases chip v s.sent → ∀ s' new,
      s'.sent = s.sent ++ [clearCall v.opAddress] ++ [clearCall v.opAddress] ++ new → E 0 s') :
    wp (erase chip v) Q E s := by
  rw [erase, ramErase]
  cases herase : v.opErase with
  | false => exact hskips herase
  | true =>
      rw [if_pos rfl, if_neg (by simp [hconfirm])]
      exact wp_eraseOrExit (hgoes herase) (hfails herase)

/-! ### Failures in a run -/

/-- Reading destroys nothing. -/
theorem readBurst_harmless {address : Int} {calls : List Call} {n : Nat} :
    ∀ c ∈ (readBurst address).sent chip calls n, M37512.destroys c = false := by
  intro c hc
  obtain ⟨i, -, hmem | hmem⟩ := Burst.mem_of_mem_sent hc
  · obtain rfl := List.mem_singleton.mp hmem
    rfl
  · obtain rfl := List.mem_singleton.mp hmem
    rfl

/-- So does reading the status. -/
theorem status_harmless :
    ∀ c ∈ [Call.readByte cmdReadClearStatusRegister], M37512.destroys c = false := by
  intro c hc
  rw [List.mem_singleton.mp hc]
  rfl

theorem destroys_clearCall (address : Int) : M37512.destroys (clearCall address) = true := by
  simp [M37512.destroys, clearCall]

theorem destroys_writeCall (address : Int) (i : Nat) (data : List Byte) :
    M37512.destroys (writeCall address i data) = true := by
  simp [M37512.destroys, writeCall]

/-- Nothing destructive was sent before the first erase. -/
theorem noFailure_beforeErase :
    NoFailure M37512.destroys chip (beforeErase chip v) := by
  have hopening : NoFailure M37512.destroys chip (ramOpening v) := by
    refine noFailure_of_untouched fun c hc => ?_
    simp only [ramOpening, List.mem_cons, List.not_mem_nil, or_false] at hc
    rcases hc with rfl | rfl | rfl <;> rfl
  unfold beforeErase
  split
  · exact hopening
  · exact (noFailure_append readBurst_harmless).mpr hopening

theorem noFailure_verified {calls : List Call} :
    NoFailure M37512.destroys chip (verified chip v calls) ↔
      NoFailure M37512.destroys chip calls := by
  unfold verified
  split
  · exact Iff.rfl
  · exact noFailure_append readBurst_harmless

theorem stops_verified {calls : List Call} :
    StopsAtFailure M37512.destroys chip (verified chip v calls) ↔
      StopsAtFailure M37512.destroys chip calls := by
  unfold verified
  split
  · exact Iff.rfl
  · exact stopsAtFailure_append readBurst_harmless

/-- An erase that succeeds is no failure. -/
theorem noFailure_erased {calls : List Call} (h : NoFailure M37512.destroys chip calls)
    (herases : Erases chip v calls) : NoFailure M37512.destroys chip (erased v calls) := by
  exact (noFailure_append status_harmless).mpr (noFailure_concat.mpr ⟨h, fun _ => herases⟩)

/-- Behind a failure an erase is one too many. -/
theorem noFailure_of_stops_erased {calls new : List Call}
    (h : StopsAtFailure M37512.destroys chip (calls ++ [clearCall v.opAddress] ++ new)) :
    NoFailure M37512.destroys chip calls :=
  (stopsAtFailure_concat.mp h.before).2 (destroys_clearCall _)

/-- An erase that fails is sent again, which is one too many. -/
theorem not_stops_twice {calls new : List Call} (hno : ¬ Erases chip v calls) :
    ¬ StopsAtFailure M37512.destroys chip
      (calls ++ [clearCall v.opAddress] ++ [clearCall v.opAddress] ++ new) := by
  intro h
  have hbefore := noFailure_of_stops_erased h
  exact hno ((noFailure_concat.mp hbefore).2 (destroys_clearCall _))

/-- The calls of a chunk that is written. -/
theorem writeBurst_test (address : Int) (block : Mem Byte) (calls : List Call) (k : Nat) :
    calls ++ (writeBurst address block).test k = calls ++ [.readByte cmdReadClearStatusRegister] ++
      [writeCall address k (block.read (k * chunkLen) chunkLen)] := by
  rw [List.append_assoc]
  rfl

/-- The chunks are written until one fails. -/
theorem noFailure_chunk {address : Int} {block : Mem Byte} {calls : List Call} {k : Nat} :
    NoFailure M37512.destroys chip (calls ++ (writeBurst address block).test k) ↔
      NoFailure M37512.destroys chip calls ∧
        0 ≤ chip.status (calls ++ (writeBurst address block).test k) := by
  rw [writeBurst_test, noFailure_concat, noFailure_append status_harmless]
  exact and_congr_right fun _ => ⟨fun h => h (destroys_writeCall ..), fun h _ => h⟩

theorem stops_chunk {address : Int} {block : Mem Byte} {calls : List Call} {k : Nat}
    (h : NoFailure M37512.destroys chip calls) :
    StopsAtFailure M37512.destroys chip (calls ++ (writeBurst address block).test k) := by
  have hbefore : NoFailure M37512.destroys chip
      (calls ++ [.readByte cmdReadClearStatusRegister]) := (noFailure_append status_harmless).mpr h
  rw [writeBurst_test, stopsAtFailure_concat]
  exact ⟨hbefore.stops, fun _ => hbefore⟩

theorem noFailure_chunks {address : Int} {block : Mem Byte} {calls : List Call} {k : Nat}
    (h : NoFailure M37512.destroys chip calls)
    (hpass : (writeBurst address block).Passes chip calls k) :
    NoFailure M37512.destroys chip (calls ++ (writeBurst address block).calls k) := by
  induction k with
  | zero => rwa [Burst.calls_zero, List.append_nil]
  | succ k ih =>
      have hcalls : calls ++ (writeBurst address block).calls (k + 1) =
          calls ++ (writeBurst address block).calls k ++ (writeBurst address block).test k := by
        rw [Burst.calls_succ, show (writeBurst address block).rest k = [] from rfl,
          List.append_nil, List.append_assoc]
      rw [hcalls, noFailure_chunk]
      exact ⟨ih (hpass.mono (Nat.le_succ k)), Int.not_lt.mp (hpass k (Nat.lt_succ_self k))⟩

/-- The writes of a run stop at the first that fails, and it is the only failure. -/
theorem written_stops (block : Mem Byte) {calls : List Call}
    (h : NoFailure M37512.destroys chip calls) :
    StopsAtFailure M37512.destroys chip (written chip v block calls) ∧
      (NoFailure M37512.destroys chip (written chip v block calls) ↔
        (writeBurst v.opAddress block).Passes chip calls (rangeCount v)) := by
  unfold written
  rcases Burst.passes_or_fails (writeBurst v.opAddress block) chip calls (rangeCount v) with
    hpass | ⟨k, hk, hfails, hpass⟩
  · rw [Burst.sent_of_passes hpass]
    have hno := noFailure_chunks h hpass
    exact ⟨hno.stops, iff_of_true hno hpass⟩
  · rw [Burst.sent_of_fails hk hfails hpass, ← List.append_assoc]
    refine ⟨stops_chunk (noFailure_chunks h hpass), iff_of_false (fun hno => ?_) fun hall => ?_⟩
    · exact absurd hfails (Int.not_lt.mpr (noFailure_chunk.mp hno).2)
    · exact hall k hk hfails

/-! ### Whole runs -/

/-- The runs that get to an erase. -/
theorem run_stops (hargs : RamReaches M37512.table Aligned chip files cmd v) :
    wp (run chip files arrays v)
      (fun _ s' => StopsAtFailure M37512.destroys chip s'.sent ↔ RunStops chip files arrays v)
      (fun _ s' => StopsAtFailure M37512.destroys chip s'.sent ↔ RunStops chip files arrays v)
      .init := by
  have hbefore : NoFailure M37512.destroys chip (beforeErase chip v) := noFailure_beforeErase
  rw [run, wp_bind]
  refine wp_opened hargs.device hargs.bootRom ?_
  rw [wp_bind]
  refine wp_dumped hargs.dump fun out => ?_
  rw [wp_bind]
  unfold RunStops
  cases hname : v.ramIn with
  | none =>
      have herase := hargs.erase hname
      rw [write, hname, wp_pure]
      refine wp_erase hargs.goes.confirmed (fun hno => ?_) (fun _ herases => ?_)
        fun _ hno s' new hsent => ?_
      · rw [herase] at hno
        cases hno
      · exact iff_of_true (noFailure_erased hbefore herases).stops herases
      · rw [hsent]
        exact iff_of_false (not_stops_twice hno) hno
  | some name =>
      refine wp_write hname hargs.goes (fun hno s' new hsent => ?_) (fun herases hno s' hsent => ?_)
        fun herases hgoes s' hsent => ?_
      · rw [hsent]
        exact iff_of_false (not_stops_twice hno) fun h => hno h.first
      all_goals
        obtain ⟨hstops, hwrites⟩ := written_stops (v := v) (inputBlock chip files arrays v name)
          (noFailure_erased hbefore herases)
      · rw [hsent, stops_verified]
        exact iff_of_true hstops ⟨herases, fun _ h => absurd h hno⟩
      · refine wp_erase hargs.goes.confirmed (fun hskips => ?_) (fun herase hagain => ?_)
          fun herase hno s'' new hsent' => ?_
        · rw [hsent, stops_verified]
          refine iff_of_true hstops ⟨herases, fun h => ?_⟩
          rw [hskips] at h
          cases h
        · rw [hsent] at hagain ⊢
          refine ⟨fun h => ⟨herases, fun _ _ => ⟨?_, hagain⟩⟩, fun h => ?_⟩
          · exact hwrites.mp (noFailure_verified.mp (noFailure_of_stops_erased h))
          · have hno := (noFailure_verified (v := v)).mpr (hwrites.mpr (h.second herase hgoes).1)
            exact (noFailure_erased hno hagain).stops
        · rw [hsent] at hno hsent'
          rw [hsent']
          exact iff_of_false (not_stops_twice hno) fun h => hno (h.second herase hgoes).2

end

/-- A run stops at the first failure exactly when it gets to no erase, or is one of those in
which neither an erase fails nor one follows a write that failed. -/
theorem stopsAtFailure_iff (chip : Chip) (files : Files) (arrays : Arrays)
    (cmd : CommandLine RamOption) :
    StopsAtFailure M37512.destroys chip (m37512flasher chip files arrays cmd).sent ↔
      ∀ v, RamReaches M37512.table Aligned chip files cmd v → RunStops chip files arrays v := by
  by_cases hreaches : ∃ v, RamReaches M37512.table Aligned chip files cmd v
  · obtain ⟨v, hv⟩ := hreaches
    have hmain : main chip files arrays cmd = run chip files arrays v := by
      rw [main, if_neg hv.args, hv.options]
    have hrun : StopsAtFailure M37512.destroys chip (m37512flasher chip files arrays cmd).sent ↔
        RunStops chip files arrays v := by
      rw [m37512flasher, hmain]
      exact endState_of_wp (run_stops hv)
    rw [hrun]
    refine ⟨fun h v' hv' => ?_, fun h => h v hv⟩
    rwa [Option.some.inj (hv'.options.symm.trans hv.options)]
  · refine iff_of_true (noFailure_of_untouched ?_).stops fun v hv => absurd ⟨v, hv⟩ hreaches
    exact (m37512_ends chip files arrays cmd).untouched hreaches

/-- A chip that refuses every block. -/
def lockedChip : Chip where
  status calls :=
    match calls.getLast? with
    | some (.writeBlock _ _) => -1
    | _ => 0
  errno _ := 0
  block _ := .failed 0
  received _ := []

/-- The erase is sent twice to a chip that refuses it. -/
theorem not_stopsAtFailure_locked :
    ¬ StopsAtFailure M37512.destroys lockedChip
      (m37512flasher lockedChip ⟨fun _ => none, fun _ => false⟩
        ⟨fun _ => 0, fun _ => 0, fun _ _ => 0⟩ ⟨3, [.confirmDelete, .erase]⟩).sent := by
  intro h
  have hharmless := h (ramOpening { RamVars.init with confirmDelete := true, opErase := true })
    (clearCall (-1)) [clearCall (-1)] rfl rfl (by decide) (clearCall (-1)) List.mem_cons_self
  rw [destroys_clearCall] at hharmless
  cases hharmless

end M37512

end Smbusb
