import Smbusb.Firmware.Cursors
import Smbusb.Firmware.WriteFrames
import Smbusb.Host.PecReport
import Smbusb.Logic.Runs

/-!
# Failed block requests

Whether a block request that fails leaves the buffer of the firmware empty, in runs of vendor
requests from power-on.

Only two exits of the two handlers leave anything behind.  A fresh read of a block longer than
63 bytes has set the cursors when it compares the PEC.  A write that completes a sequence
leaves the sequence complete when it cannot send it.  In a run without these two
(`FailsClean`), a sequence is never left complete (`Fx2.Tidy`), and no failed request leaves
anything in the buffer (`leavesEmpty_iff`).
-/

namespace Smbusb

open Logic Prog Fw Handler

/-! ## What a failed request leaves -/

/-- A block request that fails leaves the buffer empty. -/
def LeavesEmpty (T : Target) (s : Fx2) (r : VendorRequest) : Prop :=
  r.cmd = smbReadBlock ∨ r.cmd = smbWriteBlock →
    (serve T r.cmd r.setup (s.receive r)).1 = false → (s.handle T r).Empty

/-- A fresh read gets a count of at least 64, and then a PEC that is wrong. -/
def Fx2.MismatchesLong (s : Fx2) (T : Target) (smbAddr smbCmd : Word) : Prop :=
  s.Idle ∧ s.pecEnabled = true ∧ ∃ b, addressRead T smbAddr smbCmd s.toI2c = (some true, b) ∧
    LongCount (countCall T b).1 ∧
    PecWrong smbAddr smbCmd (transfer T true true ((countCall T b).1.toNat + 2)
      ((countCall T b).1.toNat + 2) b).1

/-- No long block with a wrong PEC is read, and the target takes every sequence that is
complete. -/
def FailsClean (T : Target) (s : Fx2) (r : VendorRequest) : Prop :=
  (r.cmd = smbReadBlock → ¬ (s.receive r).MismatchesLong T r.setup.value r.setup.index) ∧
  (r.cmd = smbWriteBlock → (s.receive r).Completes →
    T.Takes s.trace ((s.receive r).sequenceFrame r.setup.value r.setup.index))

/-- The buffer is empty, or a part of its sequence is outstanding. -/
structure Fx2.Tidy (s : Fx2) : Prop where
  ordered : s.Ordered
  outstanding : s.Empty ∨ s.tempptr.toNat < s.templen.toNat

namespace Fx2.Tidy

variable {s s' : Fx2}

theorem of_cursors (h : s.Tidy) (hsame : s'.cursors = s.cursors) : s'.Tidy := by
  refine ⟨h.ordered.of_cursors hsame, ?_⟩
  obtain ⟨hlen, hptr⟩ := Prod.mk.inj hsame
  rw [Fx2.Empty, hlen, hptr]
  exact h.outstanding

theorem of_empty (h : s'.cursors = (0, 0)) : s'.Tidy := by
  obtain ⟨hlen, hptr⟩ := Prod.mk.inj h
  refine ⟨Fx2.ordered_of_cursors h (Nat.le_refl _) (Nat.zero_le _), .inl ⟨hlen, hptr⟩⟩

theorem expire (h : s.Tidy) : s.expire.Tidy := by
  rw [Fx2.expire]
  split
  · exact of_empty rfl
  · exact h

theorem receive (h : s.Tidy) (r : VendorRequest) : (s.receive r).Tidy := h.of_cursors rfl

/-- Where nothing is outstanding, the buffer is empty. -/
theorem empty_of_le (h : s.Tidy) (hle : s.templen.toNat ≤ s.tempptr.toNat) : s.Empty :=
  h.outstanding.resolve_right (Nat.not_lt.mpr hle)

theorem empty_of_idle (h : s.Tidy) (hidle : s.Idle) : s.expire.cursors = (0, 0) := by
  have hempty := h.expire.empty_of_le (le_of_eq (congrArg BitVec.toNat hidle))
  exact Prod.ext hempty.1 hempty.2

theorem empty_of_templen (h : s.Tidy) (hzero : s.expire.templen = 0) :
    s.expire.cursors = (0, 0) := by
  have hempty := h.expire.empty_of_le (by rw [hzero]; exact Nat.zero_le _)
  exact Prod.ext hempty.1 hempty.2

end Fx2.Tidy

/-! ## One request -/

section

variable {T : Target} {s : Fx2}

theorem mismatchesLong_iff {smbAddr smbCmd : Word} {r : Option Bool} {b : I2c}
    (haddr : addressRead T smbAddr smbCmd s.toI2c = (r, b)) :
    s.MismatchesLong T smbAddr smbCmd ↔ s.Idle ∧ s.pecEnabled = true ∧ r = some true ∧
      LongCount (countCall T b).1 ∧
      PecWrong smbAddr smbCmd (transfer T true true ((countCall T b).1.toNat + 2)
        ((countCall T b).1.toNat + 2) b).1 := by
  refine and_congr_right fun _ => and_congr_right fun _ => ?_
  constructor
  · rintro ⟨b', hb', h⟩
    rw [haddr, Prod.mk.injEq] at hb'
    obtain ⟨hr, rfl⟩ := hb'
    exact ⟨hr, h⟩
  · rintro ⟨hr, h⟩
    exact ⟨b, by rw [haddr, hr], h⟩

/-- A read whose count is not a long one leaves the cursors alone. -/
theorem freshCursors_of_short {smbAddr smbCmd : Word} {b : I2c}
    (haddr : addressRead T smbAddr smbCmd s.toI2c = (some true, b))
    (hshort : ¬ LongCount (countCall T b).1) :
    s.freshCursors T smbAddr smbCmd = s.expire.cursors := by
  rw [Fx2.freshCursors, haddr]
  dsimp only
  rw [Fx2.countCursors, if_neg hshort]

/-- A fresh read that fails leaves the buffer empty unless it is a long one whose PEC is wrong. -/
theorem readBlock_empty_iff {smbAddr smbCmd : Word} {ok : Bool} {s' : Fx2} (htidy : s.Tidy)
    (hidle : s.Idle) (hend : ReadEnd T .block smbAddr smbCmd s ok s')
    (hcursors : s'.cursors = s.freshCursors T smbAddr smbCmd) :
    (ok = false → s'.cursors = (0, 0)) ↔ ¬ s.MismatchesLong T smbAddr smbCmd := by
  have hnone := htidy.empty_of_idle hidle
  rw [hcursors]
  cases hend with
  | noStart haddr _ _ =>
      refine iff_of_true (fun _ => ?_) fun h => ?_
      · rw [Fx2.freshCursors, haddr]
        exact hnone
      · exact absurd ((mismatchesLong_iff haddr).mp h).2.2.1 (by simp)
  | nack haddr _ _ =>
      refine iff_of_true (fun _ => ?_) fun h => ?_
      · rw [Fx2.freshCursors, haddr]
        exact hnone
      · exact absurd ((mismatchesLong_iff haddr).mp h).2.2.1 (by simp)
  | @refused b b' c _ haddr _ hcount hbad _ _ =>
      have hc : (countCall T b).1 = c := congrArg Prod.fst hcount
      have hshort : ¬ LongCount (countCall T b).1 := by
        rw [hc]
        rcases hbad with rfl | rfl <;> decide
      rw [freshCursors_of_short haddr hshort]
      exact iff_of_true (fun _ => hnone) fun h => hshort ((mismatchesLong_iff haddr).mp h).2.2.2.1
  | @wrapped b b' _ _ haddr _ hcount _ _ _ _ =>
      have hc : (countCall T b).1 = 0xFE := congrArg Prod.fst hcount
      have hshort : ¬ LongCount (countCall T b).1 := by
        rw [hc]
        decide
      rw [freshCursors_of_short haddr hshort]
      exact iff_of_true (fun _ => hnone) fun h => hshort ((mismatchesLong_iff haddr).mp h).2.2.2.1
  | @mismatch b b' vs _ haddr hgood hrow hon hwrong _ _ =>
      have hrow' : (transfer T true true ((countCall T b).1.toNat + 2)
          ((countCall T b).1.toNat + 2) b).1 = vs := congrArg Prod.fst hrow
      rw [mismatchesLong_iff haddr, hrow', and_iff_right hidle, and_iff_right hon,
        and_iff_right rfl, and_iff_left hwrong]
      by_cases hlong : LongCount (countCall T b).1
      · rw [Fx2.freshCursors, haddr]
        dsimp only
        rw [Fx2.countCursors, if_pos hlong]
        refine iff_of_false (fun h => ?_) fun h => h hlong
        have hlen := congrArg BitVec.toNat (Prod.mk.inj (h rfl)).1
        have hlow := hlong.1
        have hbyte := (countCall T b).1.isLt
        rw [BitVec.toNat_ofNat] at hlen
        simp at hlen
        omega
      · rw [freshCursors_of_short haddr hlong]
        exact iff_of_true (fun _ => hnone) hlong
  | @done b b' vs _ haddr hgood hrow hright _ _ _ _ =>
      have hrow' : (transfer T true true ((countCall T b).1.toNat + 2)
          ((countCall T b).1.toNat + 2) b).1 = vs := congrArg Prod.fst hrow
      refine iff_of_true (fun h => Bool.noConfusion h) fun h => ?_
      obtain ⟨-, hon, -, -, hwrong⟩ := (mismatchesLong_iff haddr).mp h
      rw [hrow'] at hwrong
      exact hright hon hwrong

theorem empty_iff {s' : Fx2} : s'.Empty ↔ s'.cursors = (0, 0) := Prod.mk_inj.symm

/-- A write that fails leaves the buffer empty unless it is one that completes a sequence. -/
theorem writeBlock_empty_iff {smbAddr smbCmd : Word} {ok : Bool} {s' : Fx2}
    (hdone : s.Completes) (hok : ok = (sendFrame T (s.sequenceFrame smbAddr smbCmd) s.toI2c).1)
    (hcursors : s'.cursors = if ok then (0, 0) else (s.templen, s.templen)) :
    (ok = false → s'.cursors = (0, 0)) ↔ T.Takes s.trace (s.sequenceFrame smbAddr smbCmd) := by
  rw [← sendFrame_takes_iff, ← hok, hcursors]
  cases ok with
  | true => exact iff_of_true (fun h => Bool.noConfusion h) rfl
  | false =>
      refine iff_of_false (fun h => ?_) Bool.false_ne_true
      have hzero : s.templen = 0 := (Prod.mk.inj (h rfl)).1
      refine hdone.1 ?_
      rw [Fx2.expire_of_empty hzero]
      exact hzero

/-- A `READ_BLOCK`. -/
theorem serve_readBlock_empty (htidy : s.Tidy) (setup : Setup) :
    ((serve T smbReadBlock setup s).1 = false →
      (serve T smbReadBlock setup s).2.cursors = (0, 0)) ↔
      ¬ s.MismatchesLong T setup.value setup.index := by
  obtain ⟨ok, s', hrun, hcases⟩ := readBlock_cases T setup.value setup.index
        (Nat.le_refl loopFuel) htidy.ordered
  rw [serve_of_run smbReadBlock hrun]
  rcases hcases with ⟨rfl, hbusy, -⟩ | ⟨hidle, hend, hcursors⟩
  · exact iff_of_true (fun h => Bool.noConfusion h) fun h => hbusy h.1
  · exact readBlock_empty_iff htidy hidle hend hcursors

/-- A `WRITE_BLOCK`. -/
theorem serve_writeBlock_empty (htidy : s.Tidy) (setup : Setup) :
    ((serve T smbWriteBlock setup s).1 = false →
      (serve T smbWriteBlock setup s).2.cursors = (0, 0)) ↔
      (s.Completes → T.Takes s.trace (s.sequenceFrame setup.value setup.index)) := by
  obtain ⟨ok, s', hrun, hcases⟩ := writeBlock_cases T setup.value setup.index
        (Nat.le_refl loopFuel) htidy.ordered
  rw [serve_of_run smbWriteBlock hrun]
  rcases hcases with ⟨rfl, hidle, -, -⟩ | ⟨hidle, hcursors⟩ | ⟨rfl, hmore, -, -⟩ |
    ⟨hdone, hok, hcursors⟩
  · exact iff_of_true (fun h => Bool.noConfusion h) fun h => absurd hidle h.1
  · exact iff_of_true (fun _ => hcursors.trans (htidy.empty_of_templen hidle))
      fun h => absurd hidle h.1
  · exact iff_of_true (fun h => Bool.noConfusion h) fun h => absurd h hmore
  · rw [imp_iff_right hdone]
    exact writeBlock_empty_iff hdone hok hcursors

variable (T) in
/-- One request of a run. -/
theorem leavesEmpty_step (htidy : s.Tidy) (r : VendorRequest) :
    LeavesEmpty T s r ↔ FailsClean T s r := by
  have ht := htidy.receive r
  have hhandle : s.handle T r = (serve T r.cmd r.setup (s.receive r)).2 := rfl
  have htrace : s.trace = (s.receive r).trace := rfl
  rw [LeavesEmpty, FailsClean, empty_iff, hhandle, htrace]
  by_cases hread : r.cmd = smbReadBlock
  · have hother : ¬ r.cmd = smbWriteBlock := by
      rw [hread]
      decide
    rw [imp_iff_right (.inl hread), imp_iff_right hread, and_iff_left fun h => absurd h hother,
      hread]
    exact serve_readBlock_empty ht r.setup
  · by_cases hwrite : r.cmd = smbWriteBlock
    · rw [imp_iff_right (.inr hwrite), imp_iff_right hwrite, and_iff_right fun h => absurd h hread,
        hwrite]
      exact serve_writeBlock_empty ht r.setup
    · exact iff_of_true (fun h => absurd h (not_or.mpr ⟨hread, hwrite⟩))
        ⟨fun h => absurd h hread, fun h => absurd h hwrite⟩

/-! ## The invariant -/

theorem Fx2.Tidy.next {s' : Fx2} (h : s.Tidy) (hbusy : s.templen ≠ s.tempptr)
    (hcursors : s'.cursors = s.nextCursors) : s'.Tidy := by
  have hlen := h.ordered.len
  have hne : ¬ s.templen.toNat = s.tempptr.toNat := fun heq => hbusy (BitVec.eq_of_toNat_eq heq)
  refine ⟨h.ordered.next hcursors, ?_⟩
  rw [empty_iff, hcursors, Fx2.nextCursors]
  split
  · exact .inl rfl
  · next hmore =>
    rw [Fx2.nextCursors, if_neg hmore] at hcursors
    obtain ⟨hl, hp⟩ := Prod.mk.inj hcursors
    refine .inr ?_
    rw [hl, hp, BitVec.toNat_ofNat]
    omega

theorem Fx2.Tidy.fresh {s' : Fx2} {smbAddr smbCmd : Word} (h : s.Tidy)
    (hcursors : s'.cursors = s.freshCursors T smbAddr smbCmd) : s'.Tidy := by
  have hcount : ∀ c, s'.cursors = s.countCursors c → s'.Tidy := by
    intro c hc
    rw [Fx2.countCursors] at hc
    split at hc
    · next hlong =>
      obtain ⟨hl, hp⟩ := Prod.mk.inj hc
      refine ⟨h.ordered.fresh hcursors, .inr ?_⟩
      have hlow := hlong.1
      have := c.isLt
      rw [hl, hp, BitVec.toNat_ofNat, show (0 : Word).toNat = 0 from rfl]
      omega
    · exact h.expire.of_cursors hc
  have hsplit := hcursors
  rw [Fx2.freshCursors] at hsplit
  split at hsplit
  · exact hcount _ hsplit
  · exact h.expire.of_cursors hsplit

variable (T) in
/-- A request that leaves the buffer empty when it fails leaves no sequence complete. -/
theorem tidy_handle (htidy : s.Tidy) (r : VendorRequest) (hempty : LeavesEmpty T s r) :
    (s.handle T r).Tidy := by
  have ht := htidy.receive r
  have hlen := ht.ordered.len
  rw [LeavesEmpty, empty_iff] at hempty
  have hhandle : s.handle T r = (serve T r.cmd r.setup (s.receive r)).2 := rfl
  rw [hhandle] at hempty ⊢
  generalize s.receive r = t at ht hlen hempty ⊢
  obtain ⟨gap, cmd, setup, data⟩ := r
  dsimp only at hempty ⊢
  by_cases hcmd : MovesCursors cmd
  · rcases hcmd with rfl | rfl | rfl
    · obtain ⟨ok, t', hrun, hcases⟩ := readBlock_cases T setup.value setup.index
        (Nat.le_refl loopFuel) ht.ordered
      rw [serve_of_run smbReadBlock hrun]
      rcases hcases with ⟨-, hbusy, hnext⟩ | ⟨-, -, hfresh⟩
      · exact ht.expire.next hbusy hnext
      · exact ht.fresh hfresh
    · obtain ⟨ok, t', hrun, hcases⟩ := writeBlock_cases T setup.value setup.index
        (Nat.le_refl loopFuel) ht.ordered
      rw [serve_of_run smbWriteBlock hrun] at hempty ⊢
      have hcount := (t.ep0buf 0).isLt
      rcases hcases with ⟨-, -, hbig, h⟩ | ⟨-, h⟩ | ⟨-, -, hmore, h⟩ | ⟨-, -, h⟩
      · obtain ⟨hl, hp⟩ := Prod.mk.inj h
        have h63 : (63 : Word).toNat = 63 := rfl
        refine ⟨Fx2.ordered_of_cursors h ?_ ?_, .inr ?_⟩
        · rw [BitVec.toNat_setWidth, h63]
          omega
        · rw [BitVec.toNat_setWidth]
          omega
        · rw [hl, hp, BitVec.toNat_setWidth, h63]
          omega
      · exact ht.expire.of_cursors h
      · obtain ⟨hl, hp⟩ := Prod.mk.inj h
        refine ⟨Fx2.ordered_of_cursors h ?_ hlen, .inr ?_⟩
        · rw [BitVec.toNat_ofNat]
          omega
        · rw [hl, hp, BitVec.toNat_ofNat]
          omega
      · cases ok with
        | true => exact .of_empty h
        | false => exact .of_empty (hempty (.inr rfl) rfl)
    · rw [serve_endState]
      exact .of_empty rfl
  · rw [serve_endState]
    exact ht.of_cursors (keeps_cursors T loopFuel setup hcmd t)

end

/-! ## Runs -/

/-- In a run, failed block requests leave the buffer empty exactly as far as no long block is
read with a wrong PEC and the target takes every sequence that is complete. -/
theorem leavesEmpty_iff (T : Target) (run : List VendorRequest) :
    EveryStep (Fx2.handle T) (LeavesEmpty T) Fx2.init run ↔
      EveryStep (Fx2.handle T) (FailsClean T) Fx2.init run :=
  everyStep_iff_of_invariant Fx2.Tidy (fun _ r h => leavesEmpty_step T h r)
    (fun _ r h hempty => tidy_handle T h r hempty) (.of_empty rfl)

/-- A bus on which nobody ACKs anything. -/
def Target.absent : Target := { Target.answers [] with out := fun _ _ => (0, .nack) }

/-- The host writes the count 65 and 63 bytes of a block. -/
def VendorRequest.openBlock : VendorRequest := ⟨0, smbWriteBlock, ⟨0x16, 0x20⟩, [65]⟩

/-- The host writes the rest of the block. -/
def VendorRequest.closeBlock : VendorRequest := ⟨0, smbWriteBlock, ⟨0x16, 0x20⟩, [1, 2]⟩

theorem handle_openBlock (T : Target) :
    (Fx2.init.handle T .openBlock).cursors = (65, 63) ∧
      (Fx2.init.handle T .openBlock).count = 0 := by
  have hopens := writeBlock_opens T loopFuel 0x16 0x20 (Nat.le_refl 256)
    (Fx2.init.receive .openBlock) rfl (by decide)
  have hserve : serve T smbWriteBlock ⟨0x16, 0x20⟩ (Fx2.init.receive .openBlock) = _ :=
    serve_of_run smbWriteBlock hopens
  rw [show Fx2.init.handle T .openBlock = _ from congrArg Prod.snd hserve]
  exact ⟨rfl, rfl⟩

/-- The rest of the open block cannot be sent. -/
theorem closeBlock_absent {s : Fx2} (hcursors : s.cursors = (65, 63)) (hcount : s.count = 0) :
    ¬ LeavesEmpty Target.absent s .closeBlock := by
  intro h
  obtain ⟨hlen, hptr⟩ := Prod.mk.inj hcursors
  have htidy : s.Tidy := by
    refine ⟨Fx2.ordered_of_cursors hcursors (by decide) (by decide), .inr ?_⟩
    rw [hlen, hptr]
    decide
  have hlive : (s.receive .closeBlock).expire = s.receive .closeBlock := by
    refine Fx2.expire_of_live ?_
    change s.count + BitVec.ofNat 16 0 ≤ blockSeqTimeout
    rw [hcount]
    decide
  have hdone : (s.receive .closeBlock).Completes := by
    rw [Fx2.Completes, hlive]
    change s.templen ≠ 0 ∧ s.templen.toNat ≤ s.tempptr.toNat + 64
    rw [hlen, hptr]
    decide
  obtain ⟨k, -, -, hack, -⟩ := ((leavesEmpty_step Target.absent htidy .closeBlock).mp h).2 rfl hdone
  exact absurd hack.2 (show Answer.nack ≠ Answer.ack by decide)

/-- A block that cannot be sent stays in the buffer. -/
theorem not_leavesEmpty_absent :
    ¬ EveryStep (Fx2.handle Target.absent) (LeavesEmpty Target.absent) Fx2.init
      [.openBlock, .closeBlock] := by
  rintro ⟨-, h, -⟩
  obtain ⟨hcursors, hcount⟩ := handle_openBlock Target.absent
  exact closeBlock_absent hcursors hcount h

end Smbusb
