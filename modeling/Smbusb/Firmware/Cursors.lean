import Smbusb.Firmware.Effects
import Smbusb.Firmware.Genuine

/-!
# The cursors of a sequence

`templen` and `tempptr` say how long the sequence in `temp` is and how much of it was handed
out or stored.  What a block request does depends on them, and what it leaves in them decides
what the next one does.

`readBlock_cases` and `writeBlock_cases` say once what a block request can do to the cursors,
with its result, for every target and from every state whose cursors are `Ordered`.  All other
requests leave the cursors alone (`keeps_cursors`), and a reset empties them.
-/

namespace Smbusb

open Logic Prog Fw Handler

/-- `templen` and `tempptr`. -/
def Fx2.cursors (s : Fx2) : Word × Word := (s.templen, s.tempptr)

/-- The buffer is empty. -/
def Fx2.Empty (s : Fx2) : Prop := s.templen = 0 ∧ s.tempptr = 0

/-- No more was handed out or stored than the sequence has, and it is as long as a count byte
says. -/
structure Fx2.Ordered (s : Fx2) : Prop where
  ptr : s.tempptr.toNat ≤ s.templen.toNat
  len : s.templen.toNat ≤ 255

theorem Fx2.Ordered.expire {s : Fx2} (h : s.Ordered) : s.expire.Ordered := by
  rw [Fx2.expire]
  split
  · exact ⟨Nat.le_refl _, Nat.zero_le _⟩
  · exact h

theorem Fx2.Ordered.of_cursors {s s' : Fx2} (h : s.Ordered) (hsame : s'.cursors = s.cursors) :
    s'.Ordered := by
  obtain ⟨hlen, hptr⟩ := Prod.mk.inj hsame
  refine ⟨?_, ?_⟩
  · rw [hlen, hptr]
    exact h.ptr
  · rw [hlen]
    exact h.len

/-! ## Other requests -/

theorem permits_cursors : Permits fun s s' => s'.cursors = s.cursors where
  bus _ _ _ := rfl
  scratch _ _ hlen hptr := Prod.ext hlen hptr

theorem keeps_cursors (T : Target) (fuel : Nat) (setup : Setup) {cmd : Byte}
    (hcmd : ¬ MovesCursors cmd) : Keeps Fx2.cursors (handleVendorcommand T fuel cmd setup) :=
  keeps_of_within (within_handle permits_cursors T fuel setup (fun _ _ _ => rfl)
    (fun h => absurd h hcmd) fun _ _ _ => rfl)

section

variable {T : Target} {fuel : Nat} {smbAddr smbCmd : Word} {s : Fx2}

/-! ## `READ_BLOCK` -/

/-- The cursors behind the next piece of a sequence. -/
def Fx2.nextCursors (s : Fx2) : Word × Word :=
  if s.templen.toNat ≤ s.tempptr.toNat + 64 then (0, 0)
  else (s.templen, BitVec.ofNat 16 (s.tempptr.toNat + 64))

/-- A request with data outstanding moves the cursors behind the piece. -/
theorem readBlockNext_cursors (hfuel : 65 ≤ fuel) (hlen : s.templen.toNat ≤ 255)
    (hptr : s.tempptr.toNat < s.templen.toNat) :
    ∃ s', readBlockNext fuel s = .ok true s' ∧ s'.cursors = s.nextCursors := by
  obtain ⟨oob, -, hrun⟩ := readBlockNext_ok fuel hfuel s hlen hptr
  refine ⟨_, hrun, ?_⟩
  rw [Fx2.nextCursors]
  by_cases hlast : s.templen.toNat ≤ s.tempptr.toNat + 64
  · rw [if_pos hlast, if_pos (by omega)]
    rfl
  · have h64 : min 64 (s.templen.toNat - s.tempptr.toNat) = 64 := by omega
    rw [if_neg hlast, if_neg (by omega), h64]
    rfl

/-- The count of a fresh read that leaves a part of the block in `temp`. -/
def LongCount (c : Byte) : Prop := 64 ≤ c.toNat ∧ c < 0xFE

instance (c : Byte) : Decidable (LongCount c) := inferInstanceAs (Decidable (_ ∧ _))

/-- The cursors after a block with the count `c` was read. -/
def Fx2.countCursors (s : Fx2) (c : Byte) : Word × Word :=
  if LongCount c then (BitVec.ofNat 16 (c.toNat - 63), 0) else s.expire.cursors

/-- The turns behind the first one leave the cursors and the length alone. -/
theorem wp_readBlock_cursors {v : ReadVars} {t : Fx2} {n : Nat} (hpos : 0 < v.i.toNat)
    (hL : v.blocklen.toNat = n) (hfuel : 255 ≤ fuel) :
    wp (whileLoop (fun v _ => v.i < v.blocklen) (readBlockTurn T) fuel v)
      (fun v' t' => v'.blocklen.toNat = n ∧ t'.cursors = t.cursors) (fun _ _ => False) t := by
  refine wp_whileLoop_variant (fun (v' : ReadVars) (t' : Fx2) => 0 < v'.i.toNat ∧
    v'.blocklen.toNat = n ∧ t'.cursors = t.cursors)
      (fun v' _ => 255 - v'.i.toNat) ?_ (fun _ _ h _ => h.2) (by omega)
    ⟨hpos, hL, rfl⟩
  rintro v' t' ⟨hpos', hL', ht'⟩ hcond
  rw [decide_eq_true_eq, BitVec.lt_def] at hcond
  have hkeep : Keeps Fx2.cursors (readBlockTurn T v') :=
    keeps_of_within (permits_cursors.readBlockTurn T v')
  refine wp_of_keeps hkeep (wp_readBlockTurn_at rfl hL' hpos' t') ?_ fun _ _ h => h.elim
  intro v'' t'' hturn hsame
  have hlast := v'.blocklen.isLt
  have hi : v''.i.toNat = v'.i.toNat + 1 := by
    rw [hturn.i, toNat_succ (by omega)]
  exact ⟨⟨by omega, by rw [hturn.blocklen, hL'], hsame.trans ht'⟩, by omega⟩

/-- What is read of a block, as far as the cursors go. -/
theorem wp_readBlockData_cursors (hfuel : 256 ≤ fuel) (b : I2c) :
    wp (readBlockData T fuel smbAddr smbCmd)
      (fun _ t => t.cursors = s.countCursors (countCall T b).1)
      (fun _ t => t.cursors = s.countCursors (countCall T b).1) { s.expire with toI2c := b } := by
  obtain ⟨fuel, rfl⟩ : ∃ f, fuel = f + 1 := ⟨fuel - 1, by omega⟩
  simp only [readBlockData, wp_bind, wp_get]
  rw [wp_whileLoop_succ, if_pos (show decide ((0 : Byte) < 255) = true from rfl)]
  generalize hc : (countCall T b).1 = c
  have hcount : countCall T b = (c, (countCall T b).2) := by rw [← hc]
  -- the part behind the loop, for the length the loop ends with
  have hrest : ∀ (n : Byte) (t : Fx2), t.cursors = s.expire.cursors →
      (n.toNat = c.toNat + 2 ∧ c < 0xFE ∨ n = 0 ∧ ¬ c < 0xFE) →
      (if 65 < n.toNat then
        { t with templen := n.setWidth 16 - 65, tempptr := 0, count := 0 }
        else t).cursors = s.countCursors c := by
    rintro n t ht (⟨hlen, hlt⟩ | ⟨hlen, hlt⟩)
    · rw [Fx2.countCursors]
      by_cases h64 : 64 ≤ c.toNat
      · rw [if_pos (by omega), if_pos ⟨h64, hlt⟩]
        have := n.isLt
        refine Prod.ext (BitVec.eq_of_toNat_eq ?_) rfl
        dsimp only [Fx2.cursors]
        rw [BitVec.toNat_sub_of_le (by rw [BitVec.le_def]; simp; omega)]
        simp
        omega
      · rw [if_neg (by omega), if_neg fun h => h64 h.1]
        exact ht
    · rw [if_neg (by rw [hlen]; decide), Fx2.countCursors, if_neg fun h => hlt h.2]
      exact ht
  have hbad : c = 0 ∨ c = 0xFF → s.expire.cursors = s.countCursors c := by
    rintro h
    rw [Fx2.countCursors, if_neg]
    rintro ⟨h64, hlt⟩
    rcases h with rfl | rfl
    · exact absurd h64 (by decide)
    · exact absurd hlt (by decide)
  have hend : ∀ (v : ReadVars) (t : Fx2), t.cursors = s.countCursors c →
      wp (do
        if (← get).pecEnabled ∧ v.rpec ≠ v.pec then
          modify fun s => { s with pecFailed := true }
          goto .rlfail
        else
          setEp0bcl (if 65 < v.blocklen.toNat then 64 else v.blocklen - 1)
          return true : Fw Bool) (fun _ t => t.cursors = s.countCursors c)
        (fun _ t => t.cursors = s.countCursors c) t := by
    intro v t ht
    simp only [wp_bind, wp_get, wp_ite, wp_modify, wp_goto, wp_setEp0bcl, wp_pure]
    split <;> exact ht
  refine wp_readBlockTurn_count hcount hbad ?_ ?_
  · rintro rfl
    obtain ⟨fuel, rfl⟩ : ∃ f, fuel = f + 1 := ⟨fuel - 1, by omega⟩
    rw [wp_whileLoop_succ, if_neg (show ¬ decide ((1 : Byte) < 0) = true by decide)]
    have hwrap := hrest 0 { s.expire with toI2c := (countCall T b).2 } rfl
      (.inr ⟨rfl, by decide⟩)
    exact hend _ _ hwrap
  · intro h0 hlt
    have hlen : (c + 2).toNat = c.toNat + 2 := by
      rw [BitVec.lt_def] at hlt
      rw [BitVec.toNat_add]
      simp at hlt ⊢
      omega
    refine wp_mono (wp_readBlock_cursors (Nat.lt_succ_self 0) hlen (by omega)) ?_
      fun _ _ h => h.elim
    rintro v t ⟨hL, ht⟩
    simp only [wp_modify]
    exact hend _ _ (hrest v.blocklen t ht (.inl ⟨hL, hlt⟩))

/-- The cursors behind a fresh read. -/
def Fx2.freshCursors (s : Fx2) (T : Target) (smbAddr smbCmd : Word) : Word × Word :=
  match addressRead T smbAddr smbCmd s.toI2c with
  | (some true, b) => s.countCursors (countCall T b).1
  | _ => s.expire.cursors

variable (T smbAddr smbCmd) in
theorem readBlock_cursors (hfuel : 256 ≤ fuel) (hidle : s.Idle) :
    (endState (readBlock T fuel smbAddr smbCmd) s).cursors = s.freshCursors T smbAddr smbCmd := by
  refine endState_of_wp (P := fun t : Fx2 => t.cursors = s.freshCursors T smbAddr smbCmd) ?_
  simp only [readBlock, expireSeq, wp_bind, wp_modify, wp_get]
  rw [if_neg (by rw [hidle]; simp), wp_labels, readBlockFresh, wp_bind]
  have hphase : readBlockAddress T smbAddr smbCmd =
      address T smbAddr smbCmd .rlfail .rlstopfail := rfl
  have hfail : ∀ (l : Label) (t : Fx2), t.cursors = s.freshCursors T smbAddr smbCmd →
      wp (readBlockFail T l) (fun _ t => t.cursors = s.freshCursors T smbAddr smbCmd)
        (fun _ t => t.cursors = s.freshCursors T smbAddr smbCmd) t := by
    intro l t ht
    rw [wp_readBlockFail_eq]
    split <;> exact ht
  rw [hphase, wp_address, Fx2.expire_toI2c]
  split
  · next b haddr => exact hfail _ _ (by rw [Fx2.freshCursors, haddr]; rfl)
  · next b haddr => exact hfail _ _ (by rw [Fx2.freshCursors, haddr]; rfl)
  · next b haddr =>
    have hfresh : s.freshCursors T smbAddr smbCmd = s.countCursors (countCall T b).1 := by
      rw [Fx2.freshCursors, haddr]
    rw [hfresh] at hfail ⊢
    exact wp_mono (wp_readBlockData_cursors hfuel b) (fun _ _ h => h) hfail

variable (T smbAddr smbCmd) in
/-- What a `READ_BLOCK` does to the cursors: it hands out the next piece, or it is a fresh read. -/
theorem readBlock_cases (hfuel : 256 ≤ fuel) (hs : s.Ordered) :
    ∃ ok s', readBlock T fuel smbAddr smbCmd s = .ok ok s' ∧
      (ok = true ∧ ¬ s.Idle ∧ s'.cursors = s.expire.nextCursors ∨
        s.Idle ∧ ReadEnd T .block smbAddr smbCmd s ok s' ∧
          s'.cursors = s.freshCursors T smbAddr smbCmd) := by
  have hexp := hs.expire
  by_cases hidle : s.Idle
  · have hends : ∃ ok s', readBlock T fuel smbAddr smbCmd s = .ok ok s' ∧
        ReadEnd T .block smbAddr smbCmd s ok s' := readBlock_ends hfuel hidle
    obtain ⟨ok, s', hrun, hend⟩ := hends
    have hcursors := readBlock_cursors T smbAddr smbCmd hfuel hidle
    rw [endState_of_run hrun] at hcursors
    exact ⟨ok, s', hrun, .inr ⟨hidle, hend, hcursors⟩⟩
  · have hne : ¬ s.expire.templen.toNat = s.expire.tempptr.toNat := fun h =>
      hidle (BitVec.eq_of_toNat_eq h)
    have hptr := hexp.ptr
    obtain ⟨s', hrun, hcursors⟩ := readBlockNext_cursors (s := s.expire)
      (show 65 ≤ fuel by omega) hexp.len (by omega)
    rw [← readBlock_of_more T smbAddr smbCmd fuel hidle] at hrun
    exact ⟨true, s', hrun, .inl ⟨rfl, hidle, hcursors⟩⟩

/-! ## `WRITE_BLOCK` -/

/-- The frame of a sequence: what is buffered of it and what this request brings. -/
def Fx2.sequenceFrame (s : Fx2) (smbAddr smbCmd : Word) : List Byte :=
  blockFrame s.pecEnabled (toByte smbAddr) (toByte smbCmd) (toByte s.templen)
    (s.temp.read 0 s.tempptr.toNat ++ s.ep0buf.read 0 (s.templen.toNat - s.tempptr.toNat))

/-- The request brings the rest of a live sequence, or finds it complete. -/
def Fx2.Completes (s : Fx2) : Prop :=
  s.expire.templen ≠ 0 ∧ s.expire.templen.toNat ≤ s.expire.tempptr.toNat + 64

instance (s : Fx2) : Decidable s.Completes := inferInstanceAs (Decidable (_ ∧ _))

variable (T smbAddr smbCmd) in
/-- A request that completes a sequence sends it; if that fails the sequence stays complete. -/
theorem writeBlock_completion (hfuel : 256 ≤ fuel) (hs : s.Ordered) (hdone : s.Completes) :
    let r := sendFrame T (s.sequenceFrame smbAddr smbCmd) s.toI2c
    ∃ s', writeBlock T fuel smbAddr smbCmd s = .ok r.1 s' ∧ s'.toI2c = r.2 ∧
      s'.cursors = if r.1 then (0, 0) else (s.templen, s.templen) := by
  intro r
  obtain ⟨hne, hlast⟩ := hdone
  have hlive := Fx2.live_of_expire hne
  rw [Fx2.expire_of_live hlive] at hne hlast
  have hptr := hs.ptr
  have hlen := hs.len
  have hpos : 0 < s.templen.toNat := Nat.pos_of_ne_zero fun h => hne (BitVec.eq_of_toNat_eq h)
  rcases Nat.eq_or_lt_of_le hptr with heq | hlt
  · obtain ⟨o, -, hrun⟩ := writeBlock_sendsAgain T fuel smbAddr smbCmd hfuel s hlive hpos
      (by omega) (BitVec.eq_of_toNat_eq heq)
    have hdata : s.temp.read 0 s.templen.toNat = s.temp.read 0 s.tempptr.toNat ++
        s.ep0buf.read 0 (s.templen.toNat - s.tempptr.toNat) := by
      rw [heq, Nat.sub_self, Mem.read_zero, List.append_nil]
    rw [hdata] at hrun
    refine ⟨_, hrun, ?_, ?_⟩
    · split <;> rfl
    · have hsame : s.tempptr = s.templen := BitVec.eq_of_toNat_eq heq
      change (Fx2.cursors (if r.1 = true then _ else _)) = _
      split
      · rfl
      · exact Prod.ext rfl hsame
  · refine ⟨_,
      writeBlock_completes T fuel smbAddr smbCmd hfuel s hlive (by omega) hlt hlast, ?_, ?_⟩
    · split <;> rfl
    · change (Fx2.cursors (if r.1 = true then _ else _)) = _
      split <;> rfl

variable (T smbAddr smbCmd) in
/-- What a `WRITE_BLOCK` does to the cursors: it opens a sequence, sends a short block, buffers
more of a sequence, or completes it. -/
theorem writeBlock_cases (hfuel : 256 ≤ fuel) (hs : s.Ordered) :
    ∃ ok s', writeBlock T fuel smbAddr smbCmd s = .ok ok s' ∧
      (ok = true ∧ s.expire.templen = 0 ∧ 64 < (s.ep0buf 0).toNat ∧
          s'.cursors = ((s.ep0buf 0).setWidth 16, 63) ∨
        s.expire.templen = 0 ∧ s'.cursors = s.expire.cursors ∨
        ok = true ∧ ¬ s.Completes ∧ s.tempptr.toNat + 64 < s.templen.toNat ∧
          s'.cursors = (s.templen, BitVec.ofNat 16 (s.tempptr.toNat + 64)) ∨
        s.Completes ∧ ok = (sendFrame T (s.sequenceFrame smbAddr smbCmd) s.toI2c).1 ∧
          s'.cursors = if ok then (0, 0) else (s.templen, s.templen)) := by
  have hlen := hs.len
  by_cases hidle : s.expire.templen = 0
  · rcases Nat.lt_or_ge 64 (s.ep0buf 0).toNat with hbig | hsmall
    · exact ⟨_, _, writeBlock_opens T fuel smbAddr smbCmd hfuel s hidle hbig,
        .inl ⟨rfl, hidle, hbig, rfl⟩⟩
    · obtain ⟨o, -, -, hrun⟩ := writeBlock_sends T fuel smbAddr smbCmd hfuel s hidle hsmall
      exact ⟨_, _, hrun, .inr (.inl ⟨hidle, rfl⟩)⟩
  · by_cases hdone : s.Completes
    · obtain ⟨s', hrun, -, hcursors⟩ := writeBlock_completion T smbAddr smbCmd hfuel
        hs hdone
      exact ⟨_, s', hrun, .inr (.inr (.inr ⟨hdone, rfl, hcursors⟩))⟩
    · have hlive := Fx2.live_of_expire hidle
      have hmore : s.tempptr.toNat + 64 < s.templen.toNat := by
        rw [Fx2.Completes, Fx2.expire_of_live hlive] at hdone
        rw [Fx2.expire_of_live hlive] at hidle
        exact Nat.lt_of_not_le fun h => hdone ⟨hidle, h⟩
      exact ⟨_, _, writeBlock_stores T fuel smbAddr smbCmd hfuel s hlive (by omega) hmore,
        .inr (.inr (.inl ⟨rfl, hdone, hmore, rfl⟩))⟩

end

/-! ## The invariant -/

theorem Fx2.ordered_of_cursors {s : Fx2} {l p : Word} (h : s.cursors = (l, p))
    (hptr : p.toNat ≤ l.toNat) (hlen : l.toNat ≤ 255) : s.Ordered := by
  obtain ⟨rfl, rfl⟩ := Prod.mk.inj h
  exact ⟨hptr, hlen⟩

theorem Fx2.Ordered.next {s : Fx2} (h : s.Ordered) {s' : Fx2}
    (hcursors : s'.cursors = s.nextCursors) : s'.Ordered := by
  have hlen := h.len
  rw [Fx2.nextCursors] at hcursors
  split at hcursors
  · exact Fx2.ordered_of_cursors hcursors (Nat.le_refl _) (Nat.zero_le _)
  · refine Fx2.ordered_of_cursors hcursors ?_ hlen
    rw [BitVec.toNat_ofNat]
    omega

theorem Fx2.Ordered.fresh {s : Fx2} (h : s.Ordered) {T : Target} {smbAddr smbCmd : Word} {s' : Fx2}
    (hcursors : s'.cursors = s.freshCursors T smbAddr smbCmd) : s'.Ordered := by
  have hcount : ∀ c, s'.cursors = s.countCursors c → s'.Ordered := by
    intro c hc
    rw [Fx2.countCursors] at hc
    split at hc
    · next hlong =>
      have := c.isLt
      refine Fx2.ordered_of_cursors hc (Nat.zero_le _) ?_
      rw [BitVec.toNat_ofNat]
      omega
    · exact h.expire.of_cursors hc
  rw [Fx2.freshCursors] at hcursors
  split at hcursors
  · exact hcount _ hcursors
  · exact h.expire.of_cursors hcursors

/-- Every request keeps the cursors ordered. -/
theorem ordered_handleVendorcommand (T : Target) {fuel : Nat} (hfuel : 256 ≤ fuel) (cmd : Byte)
    (setup : Setup) {s : Fx2} (hs : s.Ordered) :
    (endState (handleVendorcommand T fuel cmd setup) s).Ordered := by
  by_cases hcmd : MovesCursors cmd
  · rcases hcmd with rfl | rfl | rfl
    · obtain ⟨ok, s', hrun, h⟩ := readBlock_cases T setup.value setup.index hfuel hs
      rw [endState_of_run (m := handleVendorcommand T fuel smbReadBlock setup) hrun]
      rcases h with ⟨-, -, hnext⟩ | ⟨-, -, hfresh⟩
      · exact hs.expire.next hnext
      · exact hs.fresh hfresh
    · obtain ⟨ok, s', hrun, h⟩ := writeBlock_cases T setup.value setup.index hfuel hs
      have hlen := hs.len
      have hcount := (s.ep0buf 0).isLt
      rw [endState_of_run (m := handleVendorcommand T fuel smbWriteBlock setup) hrun]
      rcases h with ⟨-, -, hbig, h⟩ | ⟨-, h⟩ | ⟨-, -, hmore, h⟩ | ⟨-, -, h⟩
      · refine Fx2.ordered_of_cursors h ?_ ?_
        · rw [BitVec.toNat_setWidth, show (63 : Word).toNat = 63 from rfl]
          omega
        · rw [BitVec.toNat_setWidth]
          omega
      · exact hs.expire.of_cursors h
      · refine Fx2.ordered_of_cursors h ?_ hlen
        rw [BitVec.toNat_ofNat]
        omega
      · split at h
        · exact Fx2.ordered_of_cursors h (Nat.le_refl _) (Nat.zero_le _)
        · exact Fx2.ordered_of_cursors h (Nat.le_refl _) hlen
    · exact ⟨Nat.le_refl _, Nat.zero_le _⟩
  · exact hs.of_cursors (keeps_cursors T fuel setup hcmd s)

end Smbusb
