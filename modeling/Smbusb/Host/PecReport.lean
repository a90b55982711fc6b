import Smbusb.Firmware.PecCheck
import Smbusb.Host.Usb

/-!
# The report of a PEC failure

`GET_CLEAR_PEC_FAIL` tells the host whether the last read failed because of its PEC.  Here
vendor requests reach the firmware in any number and order, from power-on.

*The flag.*  `pec_failed` is one bit for all reads.  Reads whose check fails set it, and only
`GET_CLEAR_PEC_FAIL` takes it back (`pecFailed_handle`).  So it is set exactly when a failed
check of the run has not been reported since (`pecFailed_run`).

*The report.*  The answer is about the last read only when the bit was not left over from
another one, and when the check that failed was one of a PEC that arrived
(`reportsPecFail_iff`).
-/

namespace Smbusb

open Logic Prog Fw Handler

/-! ## Runs of requests -/

/-- A vendor request: the ticks before it, its code, its setup packet and its data stage. -/
structure VendorRequest where
  gap : Nat
  cmd : Byte
  setup : Setup
  data : List Byte

/-- The firmware that looks at a request. -/
def Fx2.receive (s : Fx2) (r : VendorRequest) : Fx2 := (s.tick r.gap).load r.data

/-- The firmware that has handled a request. -/
def Fx2.handle (T : Target) (s : Fx2) (r : VendorRequest) : Fx2 :=
  (serve T r.cmd r.setup (s.receive r)).2

/-- The firmware that has handled these requests since power-on. -/
def afterRun (T : Target) (run : List VendorRequest) : Fx2 := run.foldl (Fx2.handle T) Fx2.init

theorem afterRun_concat (T : Target) (run : List VendorRequest) (r : VendorRequest) :
    afterRun T (run ++ [r]) = (afterRun T run).handle T r := by
  simp [afterRun]

/-! ## The flag -/

/-- The request is a read whose check fails.  A `READ_BLOCK` with data outstanding checks
nothing. -/
def Fx2.FailsCheck (T : Target) (s : Fx2) (r : VendorRequest) : Prop :=
  ∃ kind : ReadKind, r.cmd = kind.code ∧ (kind = .block → s.Idle) ∧
    s.ChecksWrong T kind r.setup.value r.setup.index

/-- A check of the run failed, and no `GET_CLEAR_PEC_FAIL` came after it. -/
def Unreported (T : Target) (run : List VendorRequest) : Prop :=
  ∃ before r after, run = before ++ r :: after ∧
    ((afterRun T before).receive r).FailsCheck T r ∧ ∀ q ∈ after, q.cmd ≠ smbGetClearPecFail

section

variable (T : Target)

theorem serve_endState (cmd : Byte) (setup : Setup) (s : Fx2) :
    (serve T cmd setup s).2 = endState (handleVendorcommand T loopFuel cmd setup) s := by
  simp only [serve, endState]
  cases handleVendorcommand T loopFuel cmd setup s with
  | ok b s' => rfl
  | error e s' => rfl

theorem ReadKind.code_injective : Function.Injective ReadKind.code := by
  intro a b h
  cases a <;> cases b <;> first
    | rfl
    | exact absurd h (by decide)

theorem ReadKind.code_ne_clear (kind : ReadKind) : kind.code ≠ smbGetClearPecFail := by
  cases kind <;> decide

/-- The report takes the flag back. -/
theorem serve_getClearPecFail (setup : Setup) (s : Fx2) :
    ∃ s', serve T smbGetClearPecFail setup s = (true, s') ∧ s'.pecFailed = false ∧
      s'.reply 1 = [if s.pecFailed then 0xFF else 0] := by
  have h : wp getClearPecFail (fun ok s' => ok = true ∧ s'.pecFailed = false ∧
      s'.reply 1 = [if s.pecFailed then 0xFF else 0]) (fun _ _ => False) s := by
    simp only [getClearPecFail, wp_bind, wp_get, wp_ite, wp_setEp0buf, wp_setEp0bcl, wp_modify,
      wp_pure]
    cases hflag : s.pecFailed with
    | true => exact ⟨trivial, trivial, rfl⟩
    | false => exact ⟨trivial, rfl, rfl⟩
  obtain ⟨ok, s', hrun, rfl, hflag, hreply⟩ := exists_run_of_wp h
  exact ⟨s', serve_of_run smbGetClearPecFail hrun, hflag, hreply⟩

/-- One request, seen from the flag. -/
theorem pecFailed_serve (s : Fx2) (r : VendorRequest) :
    (serve T r.cmd r.setup s).2.pecFailed = true ↔
      s.FailsCheck T r ∨ s.pecFailed = true ∧ r.cmd ≠ smbGetClearPecFail := by
  by_cases hread : ∃ kind : ReadKind, r.cmd = kind.code
  · obtain ⟨kind, hkind⟩ := hread
    have hclear : r.cmd ≠ smbGetClearPecFail := by
      rw [hkind]
      exact kind.code_ne_clear
    have hfails : s.FailsCheck T r ↔ (kind = .block → s.Idle) ∧
        s.ChecksWrong T kind r.setup.value r.setup.index := by
      refine ⟨?_, fun h => ⟨kind, hkind, h⟩⟩
      rintro ⟨kind', hcode, h⟩
      obtain rfl := ReadKind.code_injective (hkind.symm.trans hcode)
      exact h
    rw [hfails, and_iff_left hclear, hkind]
    by_cases hidle : kind = .block → s.Idle
    · obtain ⟨ok, s', hrun, hend⟩ := readRequest_ends T (Nat.le_refl loopFuel) kind r.setup hidle
      rw [serve_of_run _ hrun, and_iff_right hidle, or_comm]
      exact hend.pecFailed_iff
    · obtain ⟨rfl, hmore⟩ := Classical.not_imp.mp hidle
      rw [or_iff_right (fun h => hidle h.1), serve_endState]
      have hnext : endState (handleVendorcommand T loopFuel ReadKind.block.code r.setup) s =
          endState (readBlockNext loopFuel) s.expire := by
        have hrun : handleVendorcommand T loopFuel ReadKind.block.code r.setup s =
            readBlock T loopFuel r.setup.value r.setup.index s := rfl
        rw [endState, hrun, readBlock_of_more T _ _ loopFuel hmore, endState]
      rw [hnext, keeps_readBlockNext, Fx2.expire_pecFailed]
  · have hnever : ¬ s.FailsCheck T r := by
      rintro ⟨kind, hkind, -⟩
      exact hread ⟨kind, hkind⟩
    rw [or_iff_right hnever]
    by_cases hclear : r.cmd = smbGetClearPecFail
    · obtain ⟨s', hserve, hflag, -⟩ := serve_getClearPecFail T r.setup s
      rw [hclear, hserve, hflag]
      simp
    · have hother : ¬ SetsFlag r.cmd := by
        rintro (h | h | h | h)
        · exact hread ⟨.byte, h⟩
        · exact hread ⟨.word, h⟩
        · exact hread ⟨.block, h⟩
        · exact hclear h
      rw [serve_endState, keeps_pecFailed T loopFuel r.setup hother, and_iff_left hclear]

/-- One request of a run, seen from the flag. -/
theorem pecFailed_handle (s : Fx2) (r : VendorRequest) :
    (s.handle T r).pecFailed = true ↔
      (s.receive r).FailsCheck T r ∨ s.pecFailed = true ∧ r.cmd ≠ smbGetClearPecFail :=
  pecFailed_serve T (s.receive r) r

/-- The flag is set exactly when a failed check is unreported. -/
theorem pecFailed_run (run : List VendorRequest) :
    (afterRun T run).pecFailed = true ↔ Unreported T run := by
  induction run using List.reverseRecOn with
  | nil =>
      refine iff_of_false Bool.noConfusion ?_
      rintro ⟨before, r, after, hrun, -⟩
      exact absurd hrun.symm (by simp)
  | append_singleton run r ih =>
      rw [afterRun_concat, pecFailed_handle, ih]
      constructor
      · rintro (hfails | ⟨⟨before, q, after, rfl, hfails, hafter⟩, hclear⟩)
        · exact ⟨run, r, [], rfl, hfails, by simp⟩
        · refine ⟨before, q, after ++ [r], by simp, hfails, fun p hp => ?_⟩
          rcases List.mem_append.mp hp with hp | hp
          · exact hafter p hp
          · rwa [List.mem_singleton.mp hp]
      · rintro ⟨before, q, after, hrun, hfails, hafter⟩
        rcases List.eq_nil_or_concat after with rfl | ⟨after, p, rfl⟩
        · obtain ⟨rfl, hq⟩ := List.append_inj' hrun rfl
          rw [List.singleton_inj.mp hq]
          exact .inl hfails
        · rw [List.concat_eq_append, ← List.cons_append, ← List.append_assoc] at hrun
          obtain ⟨rfl, hp⟩ := List.append_inj' hrun rfl
          rw [List.singleton_inj.mp hp]
          refine .inr ⟨⟨before, q, after, rfl, hfails, fun p hp => hafter p (by simp [hp])⟩, ?_⟩
          exact hafter p (by simp)

/-! ## The report -/

/-- The read `r` of the run failed because of its PEC: the PEC is enabled, the request fails,
and the bus shows that the PEC arrived and is wrong. -/
def FailsByPec (kind : ReadKind) (run : List VendorRequest) (r : VendorRequest) : Prop :=
  let s := (afterRun T run).receive r
  s.pecEnabled = true ∧ (serve T r.cmd r.setup s).1 = false ∧
    ∃ ext, Extends s.toI2c ext (afterRun T (run ++ [r])).toI2c ∧ PecMismatch kind ext

/-- The report `g` right behind the read `r` succeeds, and says `0xFF` exactly when the read
failed because of its PEC, and 0 otherwise. -/
def ReportsPecFail (kind : ReadKind) (run : List VendorRequest) (r g : VendorRequest) : Prop :=
  let reply := serve T g.cmd g.setup ((afterRun T (run ++ [r])).receive g)
  reply.1 = true ∧ (FailsByPec T kind run r → reply.2.reply 1 = [0xFF]) ∧
    (¬ FailsByPec T kind run r → reply.2.reply 1 = [0])

variable {T} in
theorem failsByPec_iff {kind : ReadKind} {run : List VendorRequest} {r : VendorRequest} {s s' : Fx2}
    {ok : Bool} (hs : (afterRun T run).receive r = s) (hserve : serve T r.cmd r.setup s = (ok, s'))
    (hend : ReadEnd T kind r.setup.value r.setup.index s ok s') :
    FailsByPec T kind run r ↔ s.ChecksWrong T kind r.setup.value r.setup.index ∧
      s.PecArrivesWrong T kind r.setup.value r.setup.index := by
  have hafter : afterRun T (run ++ [r]) = s' := by
    rw [afterRun_concat, Fx2.handle, hs, hserve]
  obtain ⟨ext, hext⟩ := hend.extends
  simp only [FailsByPec, hs, hserve, hafter, ← hend.mismatch_iff hext]
  refine and_congr_right fun _ => and_congr_right fun _ => ⟨?_, fun h => ⟨ext, hext, h⟩⟩
  rintro ⟨ext', hext', hmis⟩
  rwa [hext.unique hext']

/-- What a report is about.  A check that fails is one of a PEC that arrived, and when no
check fails, no failed one is unreported. -/
theorem reportsPecFail_iff (kind : ReadKind) (run : List VendorRequest) {r g : VendorRequest}
    (hread : r.cmd = kind.code) (hfresh : kind = .block → ((afterRun T run).receive r).Idle)
    (hclear : g.cmd = smbGetClearPecFail) :
    ReportsPecFail T kind run r g ↔
      (((afterRun T run).receive r).ChecksWrong T kind r.setup.value r.setup.index →
        ((afterRun T run).receive r).PecArrivesWrong T kind r.setup.value r.setup.index) ∧
      (¬ ((afterRun T run).receive r).ChecksWrong T kind r.setup.value r.setup.index →
        ¬ Unreported T run) := by
  generalize hs : (afterRun T run).receive r = s at hfresh ⊢
  obtain ⟨ok, s', hrun, hend⟩ := readRequest_ends T (Nat.le_refl loopFuel) kind r.setup hfresh
  have hserve : serve T r.cmd r.setup s = (ok, s') := by
    rw [hread]
    exact serve_of_run _ hrun
  have hafter : afterRun T (run ++ [r]) = s' := by
    rw [afterRun_concat, Fx2.handle, hs, hserve]
  have hfails := failsByPec_iff hs hserve hend
  have hflag : s'.pecFailed = true ↔ Unreported T run ∨
      s.ChecksWrong T kind r.setup.value r.setup.index := by
    rw [← pecFailed_run, hend.pecFailed_iff, ← hs]
    rfl
  obtain ⟨s'', hreply, -, hanswer⟩ := serve_getClearPecFail T g.setup (s'.receive g)
  have hreceive : (s'.receive g).pecFailed = s'.pecFailed := rfl
  rw [hreceive] at hanswer
  simp only [ReportsPecFail, hafter, hclear, hreply, hanswer, hfails, true_and]
  cases hset : s'.pecFailed with
  | true =>
      have hwas := hflag.mp hset
      have hne : ([0xFF] : List Byte) ≠ [0] := by decide
      simp only [if_true, hne, imp_false, Classical.not_not, implies_true, true_and]
      constructor
      · rintro ⟨hwrong, harrives⟩
        exact ⟨fun _ => harrives, fun hright => absurd hwrong hright⟩
      · rintro ⟨harrives, hunreported⟩
        have hwrong := Classical.not_not.mp fun hright =>
          hwas.elim (hunreported hright) hright
        exact ⟨hwrong, harrives hwrong⟩
  | false =>
      have hnot : ¬ (Unreported T run ∨ s.ChecksWrong T kind r.setup.value r.setup.index) := by
        rw [← hflag, hset]
        exact Bool.noConfusion
      obtain ⟨hreported, hright⟩ := not_or.mp hnot
      refine iff_of_true ⟨fun h => absurd h.1 hright, fun _ => rfl⟩ ?_
      exact ⟨fun hwrong => absurd hwrong hright, fun _ => hreported⟩

end

/-! ## Two reports -/

/-- The host reads a byte at the address 0x16. -/
def VendorRequest.readByte (command : Word) : VendorRequest := ⟨0, smbReadByte, ⟨0x16, command⟩, []⟩

/-- The host asks for the report. -/
def VendorRequest.report : VendorRequest := ⟨0, smbGetClearPecFail, ⟨0, 0⟩, []⟩

/-- The PEC of the first read arrives, and is wrong: the report says so. -/
theorem reportsPecFail_wrong :
    ReportsPecFail (Target.answers [5, 7]) .byte [] (.readByte 8) .report := by
  refine (reportsPecFail_iff (Target.answers [5, 7]) .byte [] rfl (fun h => ReadKind.noConfusion h)
    rfl).mpr ⟨fun _ => ?_, fun _ => ?_⟩
  · refine (pecArrivesWrong_iff (r := some true) (b := (addressRead (Target.answers [5, 7]) 0x16 8
      Fx2.init.toI2c).2) (Prod.ext (by decide +kernel) rfl)).mpr
      ⟨rfl, fun h => ReadKind.noConfusion h, ⟨_, rfl, ?_⟩, ?_⟩
    · decide +kernel
    · decide +kernel
  · rintro ⟨before, r, after, hrun, -⟩
    exact absurd hrun.symm (by simp)

/-- A target that answers with these bytes, but for the command 9, which it does not ACK. -/
def Target.refusesNine (bs : List Byte) : Target :=
  { Target.answers bs with out := fun _ b => (0, if b = 9 then .nack else .ack) }

/-- A read that failed by a NACK is reported as a PEC failure, when a PEC failure before it
was not reported. -/
theorem not_reportsPecFail_stale :
    ¬ ReportsPecFail (Target.refusesNine [5, 7]) .byte [.readByte 8] (.readByte 9) .report := by
  intro h
  have hanswer : ¬ FailsByPec (Target.refusesNine [5, 7]) .byte [.readByte 8] (.readByte 9) := by
    rintro ⟨-, -, ext, hext, hmis⟩
    -- the two bytes of the first read are all that was ever received
    have hbefore : (recvBytes ((afterRun (Target.refusesNine [5, 7]) [.readByte 8]).receive
        (.readByte 9)).trace).length = 2 := by decide +kernel
    have hafter : (recvBytes (afterRun (Target.refusesNine [5, 7])
        ([.readByte 8] ++ [.readByte 9])).trace).length = 2 := by decide +kernel
    rw [show (afterRun _ _).trace = _ from hext, recvBytes_append, List.length_append,
      hbefore] at hafter
    exact not_pecMismatch_of_short (.inl (by omega)) hmis
  exact absurd (h.2.2 hanswer) (by decide +kernel)

end Smbusb
