import Smbusb.Host.Termination

/-!
# Sequences that are read to their end

What the cursors of a sequence are good for, in every state the firmware can reach.

*The cursors.*  They are `WORD`s, and the handlers copy them and their difference into `BYTE`s.
`Fx2.Exact` says that nothing is lost there.

*Reading.*  With data outstanding, a `READ_BLOCK` ignores its parameters and the target and
hands out up to 64 bytes.  So `READ_BLOCK`s that come before the sequence is too old hand out
what is outstanding, piece by piece, and leave the cursors empty (`Delivers`).  It does not
matter whether a read or a write has opened the sequence.
-/

namespace Smbusb

open Logic Prog Fw Handler

/-! ## The cursors -/

/-- The difference of the cursors does not wrap, and a `BYTE` holds each of the three. -/
structure Fx2.Exact (s : Fx2) : Prop where
  ordered : s.tempptr.toNat ≤ s.templen.toNat ∧ s.templen.toNat ≤ 255
  rest : (s.templen - s.tempptr).toNat = s.templen.toNat - s.tempptr.toNat
  ptrByte : (toByte s.tempptr).toNat = s.tempptr.toNat
  lenByte : (toByte s.templen).toNat = s.templen.toNat
  restByte : (toByte (s.templen - s.tempptr)).toNat = (s.templen - s.tempptr).toNat

theorem toNat_toByte {w : Word} (h : w.toNat ≤ 255) : (toByte w).toNat = w.toNat := by
  rw [toByte, BitVec.toNat_setWidth]
  exact Nat.mod_eq_of_lt (by omega)

theorem Fx2.Ordered.exact {s : Fx2} (h : s.Ordered) : s.Exact := by
  obtain ⟨hptr, hlen⟩ := h
  have hrest : (s.templen - s.tempptr).toNat = s.templen.toNat - s.tempptr.toNat :=
    BitVec.toNat_sub_of_le (BitVec.le_def.mpr hptr)
  exact ⟨⟨hptr, hlen⟩, hrest, toNat_toByte (by omega), toNat_toByte hlen,
    toNat_toByte (by omega)⟩

/-! ## What is handed out -/

/-- What is left of the sequence. -/
def Fx2.outstanding (s : Fx2) : List Byte :=
  s.temp.read s.tempptr.toNat (s.templen.toNat - s.tempptr.toNat)

/-- What the firmware sends: the first `EP0BCL` bytes of `EP0BUF`. -/
def Fx2.answer (s : Fx2) : List Byte := s.ep0buf.read 0 s.ep0bcl.toNat

/-- What it sends for some requests. -/
def answers (T : Target) : Fx2 → List VendorRequest → List (List Byte)
  | _, [] => []
  | s, r :: rs => (s.handle T r).answer :: answers T (s.handle T r) rs

/-- The requests come before the sequence is too old, from this tick count on. -/
def Prompt : Word → List VendorRequest → Prop
  | _, [] => True
  | count, r :: rs => count + BitVec.ofNat 16 r.gap ≤ blockSeqTimeout ∧
      Prompt (count + BitVec.ofNat 16 r.gap) rs

/-- The requests hand out what is outstanding: each of them up to 64 bytes, in order, every byte
once, and all there is. -/
structure Delivers (T : Target) (s : Fx2) (rs : List VendorRequest) : Prop where
  each : ∀ before r after, rs = before ++ r :: after →
    let t := before.foldl (Fx2.handle T) s
    t.tempptr.toNat < t.templen.toNat ∧ (serve T r.cmd r.setup (t.receive r)).1 = true ∧
      (t.handle T r).answer.length = min 64 (t.templen.toNat - t.tempptr.toNat)
  all : (answers T s rs).flatten = s.outstanding
  done : (rs.foldl (Fx2.handle T) s).Empty

section

variable {T : Target} {s : Fx2} {r : VendorRequest}

@[simp] theorem Fx2.length_outstanding (s : Fx2) :
    s.outstanding.length = s.templen.toNat - s.tempptr.toNat := Mem.length_read ..

/-- The piece of `temp` that was copied to `EP0BUF` is read there. -/
theorem read_piece (buf temp : Mem Byte) (ptr : Nat) {n : Nat} (hn : n ≤ 64) :
    (buf.write 0 (temp.read ptr n)).read 0 (BitVec.ofNat 8 n).toNat = temp.read ptr n := by
  have hlen : (BitVec.ofNat 8 n).toNat = (temp.read ptr n).length := by
    rw [Mem.length_read, BitVec.toNat_ofNat]
    omega
  rw [hlen, Mem.read_write]

/-- The next piece is sent, and the rest is left. -/
theorem readBlockNext_handsOut {fuel : Nat} (hfuel : 65 ≤ fuel) (hlen : s.templen.toNat ≤ 255)
    (hmore : s.tempptr.toNat < s.templen.toNat) :
    ∃ s', readBlockNext fuel s = .ok true s' ∧ s'.answer = s.outstanding.take 64 ∧
      s'.outstanding = s.outstanding.drop 64 ∧ s'.cursors = s.nextCursors ∧
      s'.toI2c = s.toI2c := by
  obtain ⟨oob, -, hrun⟩ := readBlockNext_ok fuel hfuel s hlen hmore
  refine ⟨_, hrun, ?_⟩
  have hn : min 64 (s.templen.toNat - s.tempptr.toNat) ≤ 64 := Nat.min_le_left _ _
  rw [Fx2.outstanding, Mem.take_read, Mem.drop_read, Fx2.nextCursors]
  by_cases hlast : s.templen.toNat ≤ s.tempptr.toNat + 64
  · have hnone : s.templen.toNat - s.tempptr.toNat - 64 = 0 := by omega
    rw [if_pos hlast, if_pos (by omega), hnone]
    exact ⟨read_piece _ _ _ hn, rfl, rfl, rfl⟩
  · have h64 : min 64 (s.templen.toNat - s.tempptr.toNat) = 64 := by omega
    have hptr : (BitVec.ofNat 16 (s.tempptr.toNat + 64)).toNat = s.tempptr.toNat + 64 := by
      rw [BitVec.toNat_ofNat]
      omega
    rw [if_neg hlast, if_neg (by omega), h64]
    refine ⟨read_piece _ _ _ (Nat.le_refl 64), ?_, rfl, rfl⟩
    rw [Fx2.outstanding]
    dsimp only
    rw [hptr, Nat.sub_sub]

/-- One request hands out the next piece and leaves the rest, for the same time. -/
structure HandsOut (T : Target) (s : Fx2) (r : VendorRequest) : Prop where
  succeeds : (serve T r.cmd r.setup (s.receive r)).1 = true
  answer : (s.handle T r).answer = s.outstanding.take 64
  outstanding : (s.handle T r).outstanding = s.outstanding.drop 64
  cursors : (s.handle T r).cursors = s.nextCursors
  count : (s.handle T r).count = s.count + BitVec.ofNat 16 r.gap

theorem handsOut (hs : s.Ordered) (hmore : s.tempptr.toNat < s.templen.toNat)
    (hread : r.cmd = smbReadBlock)
    (htime : s.count + BitVec.ofNat 16 r.gap ≤ blockSeqTimeout) : HandsOut T s r := by
  have hexpire : (s.receive r).expire = s.receive r := Fx2.expire_of_live htime
  have hne : (s.receive r).expire.templen ≠ (s.receive r).expire.tempptr := by
    rw [hexpire]
    intro heq
    exact absurd (congrArg BitVec.toNat heq) (Nat.ne_of_gt hmore)
  obtain ⟨s', hrun, hanswer, hrest, hcursors, hi2c⟩ :=
    @readBlockNext_handsOut (s.receive r) loopFuel (by decide) hs.len hmore
  rw [← hexpire, ← readBlock_of_more T r.setup.value r.setup.index loopFuel hne] at hrun
  have hserve : serve T r.cmd r.setup (s.receive r) = (true, s') := by
    rw [hread]
    exact serve_of_run smbReadBlock hrun
  have hhandle : s.handle T r = s' := congrArg Prod.snd hserve
  refine ⟨congrArg Prod.fst hserve, ?_, ?_, ?_, ?_⟩
  · rw [hhandle]
    exact hanswer
  · rw [hhandle]
    exact hrest
  · rw [hhandle]
    exact hcursors
  · rw [hhandle]
    exact congrArg I2c.count hi2c

/-! ## To the end -/

/-- The sequence is open, or done. -/
def Fx2.Open (s : Fx2) : Prop := s.tempptr.toNat < s.templen.toNat ∨ s.Empty

theorem HandsOut.stays_open (h : HandsOut T s r) (hlen : s.templen.toNat ≤ 255) :
    (s.handle T r).Open := by
  have hcursors := h.cursors
  rw [Fx2.nextCursors] at hcursors
  split at hcursors
  · exact .inr (Prod.mk.inj hcursors)
  · obtain ⟨hlen', hptr'⟩ := Prod.mk.inj hcursors
    refine .inl ?_
    rw [hlen', hptr', BitVec.toNat_ofNat]
    omega

/-- As many requests as there are pieces deliver the sequence. -/
theorem delivers_of_open {rs : List VendorRequest} (hs : s.Ordered) (hopen : s.Open)
    (hread : ∀ r ∈ rs, r.cmd = smbReadBlock) (htime : Prompt s.count rs)
    (hpieces : rs.length = (s.templen.toNat - s.tempptr.toNat + 63) / 64) : Delivers T s rs := by
  induction rs generalizing s with
  | nil =>
      rw [List.length_nil] at hpieces
      have hempty : s.Empty := hopen.resolve_left (by omega)
      refine ⟨fun before r after h => ?_, ?_, hempty⟩
      · exact absurd h.symm (List.append_ne_nil_of_right_ne_nil before (List.cons_ne_nil r after))
      · rw [Fx2.outstanding, hempty.1, hempty.2]
        rfl
  | cons r rs ih =>
      rw [List.length_cons] at hpieces
      have hmore : s.tempptr.toNat < s.templen.toNat := by omega
      have hout := @handsOut T s r hs hmore (hread r List.mem_cons_self) htime.1
      have hlength := congrArg List.length hout.outstanding
      rw [List.length_drop, Fx2.length_outstanding, Fx2.length_outstanding] at hlength
      have htail : Delivers T (s.handle T r) rs := by
        refine ih (ordered_handle T hs r) (hout.stays_open hs.len)
          (fun q hq => hread q (List.mem_cons_of_mem r hq)) ?_ (by omega)
        rw [hout.count]
        exact htime.2
      refine ⟨fun before q after h => ?_, ?_, htail.done⟩
      · cases before with
        | nil =>
            obtain ⟨rfl, rfl⟩ := List.cons.inj h
            refine ⟨hmore, hout.succeeds, ?_⟩
            rw [List.foldl_nil, hout.answer, List.length_take, Fx2.length_outstanding]
        | cons p before =>
            obtain ⟨rfl, rfl⟩ := List.cons.inj h
            exact htail.each before q after rfl
      · rw [answers, List.flatten_cons, htail.all, hout.answer, hout.outstanding,
          List.take_append_drop]

end

/-- In every state the firmware can reach the cursors are exact, when the next request looks at
them, and behind it, also when it is cut off.  What is outstanding is delivered by the
`READ_BLOCK`s that follow in time. -/
theorem sequence_cursors (T : Target) :
    (∀ s, Reachable T s → s.Exact ∧ (∀ r, (s.receive r).expire.Exact) ∧
      ∀ r fuel, 256 ≤ fuel →
        (endState (handleVendorcommand T fuel r.cmd r.setup) (s.receive r)).Exact) ∧
    ∀ s : Fx2, s.tempptr.toNat < s.templen.toNat → s.templen.toNat ≤ 255 →
      ∀ rs : List VendorRequest, (∀ r ∈ rs, r.cmd = smbReadBlock) → Prompt s.count rs →
        rs.length = (s.templen.toNat - s.tempptr.toNat + 63) / 64 → Delivers T s rs := by
  refine ⟨fun s hs => ?_, fun s hmore hlen rs hread htime hpieces => ?_⟩
  · have hreceive : ∀ r, (s.receive r).Ordered := fun _ => hs.ordered.of_cursors rfl
    exact ⟨hs.ordered.exact, fun r => (hreceive r).expire.exact, fun r fuel hfuel =>
      (ordered_handleVendorcommand T hfuel r.cmd r.setup (hreceive r)).exact⟩
  · exact delivers_of_open ⟨Nat.le_of_lt hmore, hlen⟩ (.inl hmore) hread htime hpieces

/-- A write of 200 bytes that got as far as its first request is read back in three pieces. -/
theorem sequence_cursors_overtaken : ∃ s, Reachable Target.absent s ∧ s.Exact ∧
    s.cursors = (200, 63) ∧ Delivers Target.absent s
      [⟨1, smbReadBlock, ⟨0, 0⟩, []⟩, ⟨4, smbReadBlock, ⟨0x16, 0x20⟩, [9]⟩,
        ⟨0, smbReadBlock, ⟨0, 0⟩, []⟩] := by
  have hopens := writeBlock_opens Target.absent loopFuel 0x16 0x20 (Nat.le_refl 256)
    (Fx2.init.receive ⟨0, smbWriteBlock, ⟨0x16, 0x20⟩, [200]⟩) rfl (by decide)
  have hreach := Reachable.request (T := Target.absent)
    ⟨0, smbWriteBlock, ⟨0x16, 0x20⟩, [200]⟩ .powerOn ⟨loopFuel, hopens⟩
  refine ⟨_, hreach, ((sequence_cursors Target.absent).1 _ hreach).1, rfl, ?_⟩
  refine (sequence_cursors Target.absent).2 _ ?_ ?_ _ ?_ ?_ ?_
  · decide
  · decide
  · simp
  · exact ⟨by decide, by decide, by decide, trivial⟩
  · decide

end Smbusb
