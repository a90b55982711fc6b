import Smbusb.Host.BlockFailures

/-!
# Stale sequences

Whether a sequence that was left unfinished is dropped when the next block request comes, in
runs of vendor requests from power-on.

*The counter.*  The age of a sequence is kept in `count`.  The timer counts it up, 16 bits
wide, and every wait of an I2C function starts it again.  So what a block request finds in it
are the ticks since the last wait on the bus, modulo 2^16 (`silence`, `count_afterRun`).

*Dropping.*  `Discards` says what a request does that drops the sequence: the same as on an
empty buffer, whatever its parameters are.  It does so exactly when the counter it finds has
passed `BLOCK_SEQ_TIMEOUT` (`discards_iff_count`), so exactly when nothing but time passed on
the bus for long enough, and not too long (`discards_iff`).
-/

namespace Smbusb

open Logic Prog Fw Handler

/-- The two block requests. -/
def VendorRequest.IsBlock (r : VendorRequest) : Prop :=
  r.cmd = smbReadBlock ∨ r.cmd = smbWriteBlock

instance (r : VendorRequest) : Decidable r.IsBlock := inferInstanceAs (Decidable (_ ∨ _))

/-- The state without its sequence. -/
def Fx2.emptied (s : Fx2) : Fx2 := { s with templen := 0, tempptr := 0 }

theorem Fx2.emptied_of_empty {s : Fx2} (h : s.cursors = (0, 0)) : s.emptied = s := by
  obtain ⟨hlen, hptr⟩ := Prod.mk.inj h
  cases s
  simp only [Fx2.emptied] at hlen hptr ⊢
  rw [hlen, hptr]

/-- Every block request that comes after so many ticks does what it does on an empty buffer: it
drops the old sequence, and is a fresh transfer with its own parameters. -/
def Discards (T : Target) (s : Fx2) (gap : Nat) : Prop :=
  ∀ r : VendorRequest, r.IsBlock → r.gap = gap →
    serve T r.cmd r.setup (s.receive r) = serve T r.cmd r.setup (s.emptied.receive r)

/-- The ticks since the last wait on the bus: those `n` before the run, and the ticks of its
requests, from the last one on that used the bus. -/
def silence (T : Target) : Fx2 → List VendorRequest → Nat → Nat
  | _, [], n => n
  | s, r :: rs, n =>
      silence T (s.handle T r) rs
        (if (s.handle T r).trace = s.trace then n + r.gap else (s.handle T r).count.toNat)

/-! ## The check -/

section

variable {T : Target} {s : Fx2}

theorem expire_expire : s.expire.expire = s.expire := by
  by_cases h : 0 < s.templen ∧ blockSeqTimeout < s.count
  · refine Fx2.expire_of_empty ?_
    rw [Fx2.expire, if_pos h]
  · have hsame : s.expire = s := by rw [Fx2.expire, if_neg h]
    rw [hsame, hsame]

theorem readBlock_expire (fuel : Nat) (smbAddr smbCmd : Word) :
    readBlock T fuel smbAddr smbCmd s = readBlock T fuel smbAddr smbCmd s.expire := by
  have hrun : ∀ t : Fx2, readBlock T fuel smbAddr smbCmd t =
      (if 0 < t.expire.templen - t.expire.tempptr then readBlockNext fuel
      else labels (readBlockFresh T fuel smbAddr smbCmd) (readBlockFail T)) t.expire := fun _ => rfl
  rw [hrun, hrun s.expire, expire_expire]

theorem writeBlock_expire (fuel : Nat) (smbAddr smbCmd : Word) :
    writeBlock T fuel smbAddr smbCmd s = writeBlock T fuel smbAddr smbCmd s.expire := by
  rw [writeBlock_eq, writeBlock_eq, expire_expire]

/-- Where the sequence is dropped, both requests go on from an empty buffer. -/
theorem serve_of_expired {cmd : Byte} (hcmd : cmd = smbReadBlock ∨ cmd = smbWriteBlock)
    (setup : Setup) (h : s.expire = s.emptied) :
    serve T cmd setup s = serve T cmd setup s.emptied := by
  have hempty : s.emptied.expire = s.emptied := Fx2.expire_of_empty rfl
  rcases hcmd with rfl | rfl
  · have hrun : handleVendorcommand T loopFuel smbReadBlock setup s =
        handleVendorcommand T loopFuel smbReadBlock setup s.emptied :=
      (readBlock_expire loopFuel setup.value setup.index).trans (by rw [h]; rfl)
    rw [serve, serve, hrun]
  · have hrun : handleVendorcommand T loopFuel smbWriteBlock setup s =
        handleVendorcommand T loopFuel smbWriteBlock setup s.emptied :=
      (writeBlock_expire loopFuel setup.value setup.index).trans (by rw [h]; rfl)
    rw [serve, serve, hrun]

variable (T) in
/-- On an empty buffer, a count of 65 opens a sequence. -/
theorem serve_opens (setup : Setup) (hidle : s.expire.templen = 0) (hcount : s.ep0buf 0 = 65) :
    (serve T smbWriteBlock setup s).2.cursors = (65, 63) := by
  have hopens := writeBlock_opens T loopFuel setup.value setup.index (Nat.le_refl 256) s hidle
    (by rw [hcount]; decide)
  have hserve : serve T smbWriteBlock setup s = _ := serve_of_run smbWriteBlock hopens
  rw [hserve]
  exact Prod.ext (by rw [hcount]; rfl) rfl

variable (T) in
/-- In a live sequence, no write leaves these cursors. -/
theorem serve_not_opens (setup : Setup) (hs : s.Ordered) (hne : s.templen ≠ 0)
    (hlive : s.count ≤ blockSeqTimeout) :
    (serve T smbWriteBlock setup s).2.cursors ≠ (65, 63) := by
  obtain ⟨ok, s', hrun, hcases⟩ := writeBlock_cases T setup.value setup.index
        (Nat.le_refl loopFuel) hs
  have hserve : serve T smbWriteBlock setup s = _ := serve_of_run smbWriteBlock hrun
  rw [hserve]
  rw [Fx2.expire_of_live hlive] at hcases
  intro hcursors
  rcases hcases with ⟨-, h0, -⟩ | ⟨h0, -⟩ | ⟨-, -, hmore, hstored⟩ | ⟨-, -, hended⟩
  · exact hne h0
  · exact hne h0
  · have hp := congrArg BitVec.toNat (Prod.mk.inj (hstored.symm.trans hcursors)).2
    have hlen := hs.len
    rw [BitVec.toNat_ofNat, show (63 : Word).toNat = 63 from rfl] at hp
    omega
  · have h := hended.symm.trans hcursors
    split at h
    · exact absurd (Prod.mk.inj h).1 (by decide)
    · obtain ⟨hl, hp⟩ := Prod.mk.inj h
      rw [hl] at hp
      exact absurd hp (by decide)

/-- A request that keeps a live sequence does not open the one it brings. -/
theorem not_discards_of_live (hs : s.Ordered) (hne : s.templen ≠ 0) {gap : Nat}
    (hlive : s.count + BitVec.ofNat 16 gap ≤ blockSeqTimeout) : ¬ Discards T s gap := by
  intro h
  let r : VendorRequest := ⟨gap, smbWriteBlock, ⟨0x16, 0x20⟩, [65]⟩
  have hsame := h r (.inr rfl) rfl
  have hfresh := serve_opens T (s := s.emptied.receive r) r.setup rfl rfl
  have hkept := serve_not_opens T (s := s.receive r) r.setup (hs.of_cursors rfl) hne hlive
  rw [show serve T smbWriteBlock r.setup (s.receive r) = _ from hsame] at hkept
  exact hkept hfresh

/-- A sequence is dropped exactly when the counter has passed the timeout. -/
theorem discards_iff_count (hs : s.Ordered) (hne : s.templen ≠ 0) (gap : Nat) :
    Discards T s gap ↔ blockSeqTimeout < s.count + BitVec.ofNat 16 gap := by
  refine ⟨fun h => ?_, fun hlate r hr hgap => ?_⟩
  · by_contra hlive
    refine not_discards_of_live hs hne ?_ h
    rw [BitVec.le_def]
    rw [BitVec.lt_def] at hlive
    omega
  · have hpos : 0 < s.templen := by
      rw [BitVec.lt_def]
      exact Nat.pos_of_ne_zero fun h => hne (BitVec.eq_of_toNat_eq h)
    have hexpired : (s.receive r).expire = (s.receive r).emptied := by
      rw [Fx2.expire, if_pos]
      · rfl
      · refine ⟨hpos, ?_⟩
        change blockSeqTimeout < s.count + BitVec.ofNat 16 r.gap
        rwa [hgap]
    exact serve_of_expired hr r.setup hexpired

end

/-! ## The requests in between -/

/-- The bus was used, or the counter is what it was. -/
def CountSteady (s s' : Fx2) : Prop :=
  ∃ ext, Extends s.toI2c ext s'.toI2c ∧ (ext = [] → s'.count = s.count)

instance : IsPreorder Fx2 CountSteady where
  refl s := ⟨[], Extends.refl _, fun _ => rfl⟩
  trans _ _ _ := by
    rintro ⟨ext, hext, hsame⟩ ⟨ext', hext', hsame'⟩
    refine ⟨ext ++ ext', hext.trans hext', fun hnone => ?_⟩
    obtain ⟨h, h'⟩ := List.append_eq_nil_iff.mp hnone
    exact (hsame' h').trans (hsame h)

theorem permits_countSteady : Permits CountSteady where
  bus s b hwent := by
    rcases hwent with rfl | ⟨e, ext, hext⟩
    · exact ⟨[], Extends.refl _, fun _ => rfl⟩
    · exact ⟨e :: ext, hext, fun h => absurd h (List.cons_ne_nil e ext)⟩
  scratch {s t} hi2c _ _ _ := by
    refine ⟨[], ?_, fun _ => congrArg I2c.count hi2c⟩
    rw [hi2c]
    exact Extends.refl _

section

variable (T : Target) {s : Fx2}

/-- A request that is no block request and does not use the bus lets the counter run on. -/
theorem count_handle {r : VendorRequest} (hother : ¬ r.IsBlock)
    (hquiet : (s.handle T r).trace = s.trace) :
    (s.handle T r).count = s.count + BitVec.ofNat 16 r.gap := by
  have hsteady : CountSteady (s.receive r) (s.handle T r) := by
    have hwithin : Within CountSteady (handleVendorcommand T loopFuel r.cmd r.setup) :=
      within_handle permits_countSteady T loopFuel r.setup (fun _ _ _ => refl_of CountSteady _)
        (fun _ _ _ _ => refl_of CountSteady _) (fun h => absurd h hother)
    have h := hwithin (s.receive r)
    rwa [← serve_endState] at h
  obtain ⟨ext, hext, hsame⟩ := hsteady
  have hnone : s.trace ++ ext = s.trace ++ [] :=
    hext.symm.trans (hquiet.trans (List.append_nil _).symm)
  exact hsame (List.append_cancel_left hnone)

/-- The counter holds the ticks since the last wait on the bus. -/
theorem count_foldl {run : List VendorRequest} (hother : ∀ r ∈ run, ¬ r.IsBlock) {n : Nat}
    (hn : s.count = BitVec.ofNat 16 n) :
    (run.foldl (Fx2.handle T) s).count = BitVec.ofNat 16 (silence T s run n) := by
  induction run generalizing s n with
  | nil => exact hn
  | cons r run ih =>
      rw [List.foldl_cons, silence]
      refine ih (fun q hq => hother q (List.mem_cons_of_mem r hq)) ?_
      split
      · next hquiet =>
        rw [count_handle T (hother r List.mem_cons_self) hquiet, hn, BitVec.ofNat_add]
      · rw [BitVec.ofNat_toNat, BitVec.setWidth_eq]

/-- Between block requests, a sequence is kept unless a reset drops it. -/
theorem cursors_foldl {run : List VendorRequest} (hother : ∀ r ∈ run, ¬ r.IsBlock) :
    (run.foldl (Fx2.handle T) s).cursors =
      if ∃ r ∈ run, r.cmd = smbResetInterface then (0, 0) else s.cursors := by
  induction run generalizing s with
  | nil => simp
  | cons r run ih =>
      rw [List.foldl_cons, ih fun q hq => hother q (List.mem_cons_of_mem r hq)]
      by_cases hrest : ∃ q ∈ run, q.cmd = smbResetInterface
      · obtain ⟨q, hq, hreset⟩ := hrest
        rw [if_pos ⟨q, hq, hreset⟩, if_pos ⟨q, List.mem_cons_of_mem r hq, hreset⟩]
      · rw [if_neg hrest]
        by_cases hreset : r.cmd = smbResetInterface
        · rw [if_pos ⟨r, List.mem_cons_self, hreset⟩, Fx2.handle, hreset, serve_endState]
          rfl
        · have hnone : ¬ ∃ q ∈ r :: run, q.cmd = smbResetInterface := by
            rintro ⟨q, hq, h⟩
            rcases List.mem_cons.mp hq with rfl | hq
            · exact hreset h
            · exact hrest ⟨q, hq, h⟩
          have hmoves : ¬ MovesCursors r.cmd := by
            rintro (h | h | h)
            · exact hother r List.mem_cons_self (.inl h)
            · exact hother r List.mem_cons_self (.inr h)
            · exact hreset h
          rw [if_neg hnone, Fx2.handle, serve_endState,
            keeps_cursors T loopFuel r.setup hmoves]
          rfl

end

/-! ## Reachable states -/

theorem ordered_handle (T : Target) {s : Fx2} (h : s.Ordered) (r : VendorRequest) :
    (s.handle T r).Ordered := by
  rw [Fx2.handle, serve_endState]
  exact ordered_handleVendorcommand T (Nat.le_refl 256) r.cmd r.setup (h.of_cursors rfl)

theorem ordered_afterRun (T : Target) (run : List VendorRequest) : (afterRun T run).Ordered := by
  induction run using List.reverseRecOn with
  | nil => exact ⟨Nat.le_refl _, Nat.zero_le _⟩
  | append_singleton run r ih =>
      rw [afterRun_concat]
      exact ordered_handle T ih r

/-- The block request that comes `gap` ticks after other requests drops an unfinished sequence
exactly when one of these was a reset, or when the ticks since the last wait on the bus, modulo
2^16, are more than `BLOCK_SEQ_TIMEOUT`. -/
theorem discards_iff (T : Target) (before between : List VendorRequest) (gap : Nat)
    (hopen : (afterRun T before).templen ≠ 0) (hother : ∀ r ∈ between, ¬ r.IsBlock) :
    Discards T (afterRun T (before ++ between)) gap ↔
      (∃ r ∈ between, r.cmd = smbResetInterface) ∨
        5 < (silence T (afterRun T before) between (afterRun T before).count.toNat + gap) %
          2 ^ 16 := by
  have hrun : afterRun T (before ++ between) = between.foldl (Fx2.handle T) (afterRun T before) :=
    List.foldl_append
  have hcursors := cursors_foldl T (s := afterRun T before) hother
  have hcount := count_foldl T (s := afterRun T before) hother
    (n := (afterRun T before).count.toNat) (by rw [BitVec.ofNat_toNat, BitVec.setWidth_eq])
  rw [← hrun] at hcursors hcount
  by_cases hreset : ∃ r ∈ between, r.cmd = smbResetInterface
  · rw [if_pos hreset] at hcursors
    refine iff_of_true (fun r _ _ => ?_) (.inl hreset)
    rw [Fx2.emptied_of_empty hcursors]
  · rw [if_neg hreset] at hcursors
    have hne : (afterRun T (before ++ between)).templen ≠ 0 := by
      rw [(Prod.mk.inj hcursors).1]
      exact hopen
    rw [or_iff_right hreset, discards_iff_count (ordered_afterRun T _) hne, hcount,
      ← BitVec.ofNat_add, BitVec.lt_def, BitVec.toNat_ofNat]
    rfl

/-! ## A sequence that was opened -/

theorem afterRun_openBlock (T : Target) :
    (afterRun T [.openBlock]).cursors = (65, 63) ∧ (afterRun T [.openBlock]).count = 0 := by
  rw [afterRun, List.foldl_cons, List.foldl_nil]
  exact handle_openBlock T

/-- Six ticks later, a block request drops it. -/
theorem discards_idle : Discards Target.absent (afterRun Target.absent [.openBlock]) 6 := by
  obtain ⟨hcursors, hcount⟩ := afterRun_openBlock Target.absent
  have hnone : ∀ r ∈ ([] : List VendorRequest), ¬ r.IsBlock := by simp
  refine (discards_iff Target.absent [.openBlock] [] 6 ?_ hnone).mpr (.inr ?_)
  · rw [(Prod.mk.inj hcursors).1]
    decide
  · rw [silence, hcount]
    decide

/-- The host probes an address after so many ticks. -/
def VendorRequest.probe (gap : Nat) : VendorRequest := ⟨gap, smbTestAddressAck, ⟨0x16, 0⟩, []⟩

/-- A probe starts the counter again. -/
theorem count_probe (gap : Nat) (s : Fx2) : (s.handle Target.absent (.probe gap)).count = 0 := by
  have h : wp (testAddressAck Target.absent 0x16) (fun _ t => t.count = 0) (fun _ t => t.count = 0)
      (s.receive (.probe gap)) := by
    simp only [testAddressAck, wp_bind, wp_ite, wp_i2c, wp_i2cDo, wp_setEp0buf, wp_setEp0bcl,
      wp_pure]
    have hstart : ∀ b, i2cStart Target.absent b = (true, b.log (.start false)) := fun _ => rfl
    rw [hstart, if_pos rfl]
    rfl
  rw [Fx2.handle, serve_endState]
  exact endState_of_wp (P := fun t : Fx2 => t.count = 0) h

/-- An unfinished sequence is dropped by the block request that comes `gap` ticks after other
requests, when more than `BLOCK_SEQ_TIMEOUT` ticks have passed since. -/
def Expires (T : Target) (before between : List VendorRequest) (gap : Nat) : Prop :=
  (afterRun T before).templen ≠ 0 → (∀ r ∈ between, ¬ r.IsBlock) →
    blockSeqTimeout.toNat < (between.map VendorRequest.gap).sum + gap →
      Discards T (afterRun T (before ++ between)) gap

/-- With a probe after six ticks, the next block request finds the old sequence live. -/
theorem not_expires_probed : ¬ Expires Target.absent [.openBlock] [.probe 6] 0 := by
  obtain ⟨hcursors, -⟩ := afterRun_openBlock Target.absent
  have hprobe : ∀ r ∈ [VendorRequest.probe 6], ¬ r.IsBlock := by
    intro r hr
    rw [List.mem_singleton.mp hr]
    decide
  intro hexpires
  refine absurd (hexpires ?_ hprobe (by decide)) ?_
  · rw [(Prod.mk.inj hcursors).1]
    decide
  have hordered := ordered_afterRun Target.absent [.openBlock]
  rw [afterRun_concat]
  generalize afterRun Target.absent [.openBlock] = s at hcursors hordered
  have hkept : (s.handle Target.absent (.probe 6)).cursors = (65, 63) := by
    have hnone : ¬ ∃ r ∈ [VendorRequest.probe 6], r.cmd = smbResetInterface := by simp; decide
    have h := cursors_foldl Target.absent (s := s) hprobe
    rwa [if_neg hnone, hcursors, List.foldl_cons, List.foldl_nil] at h
  refine not_discards_of_live (ordered_handle _ hordered _) ?_ ?_
  · rw [(Prod.mk.inj hkept).1]
    decide
  · rw [count_probe]
    decide

end Smbusb
