import Smbusb.Logic.Chunks
import Smbusb.Firmware.WriteBlock
import Smbusb.Host.Fx2lp

/-!
# Block writes from end to end

The host cuts the count and the data of a block into chunks of 64 bytes
(`writeBlock_eq_sendChunks`).  The firmware looks at one chunk at a time and
decides from its first byte what is coming.

*The sequence.*  Between two chunks the firmware holds a beginning of the data
(`Pending`).  A chunk that arrives in time extends it (`Pending.stores`) or
completes it, and then the frame is sent (`Pending.completes`).

*The call.*  For every target and every fate of the chunks, a block write that
finds no live sequence, and whose chunks are in time, sends nothing or sends its
own frame (`sendChunks_outcome`).  The length 64 is left out: there the host sends
two chunks and the firmware takes the first one for the whole block.
-/

namespace Smbusb

open Logic Prog Fw Fx2lp

/-! ## Chunks -/

section Chunks

variable {S : Type} (d : Device S) (setup : Setup)

/-- Send chunks, up to the first one whose status is not its length. -/
def sendChunks : List (List Byte) → S → Except Int Unit × S
  | [], s => (.ok (), s)
  | c :: cs, s =>
      let (status, s) := d.out smbWriteBlock setup c s
      if status ≠ c.length then (.error status, s) else sendChunks cs s

theorem sendChunks_append (cs cs' : List (List Byte)) (s : S) :
    sendChunks d setup (cs ++ cs') s =
      match sendChunks d setup cs s with
      | (.error status, s) => (.error status, s)
      | (.ok (), s) => sendChunks d setup cs' s := by
  induction cs generalizing s with
  | nil => rfl
  | cons c cs ih =>
      simp only [List.cons_append, sendChunks]
      split
      · rfl
      · exact ih _

/-- The whole chunks of the driver's loop. -/
theorem writeBlockWhole_eq (tmp : List Byte) (left i : Nat) (s : S)
    (h : (i + left) * 64 ≤ tmp.length) :
    writeBlockWhole d setup tmp left i s =
      sendChunks d setup ((List.range left).map fun k => (tmp.drop ((i + k) * 64)).take 64) s := by
  induction left generalizing i s with
  | zero => rfl
  | succ left ih =>
      have hlen : ((tmp.drop (i * 64)).take 64).length = 64 := by
        rw [List.length_take, List.length_drop]
        omega
      have hshift : ∀ k, i + 1 + k = i + (k + 1) := by omega
      simp only [writeBlockWhole, List.range_succ_eq_map, List.map_cons, List.map_map, sendChunks,
        Nat.add_zero, hlen]
      rw [ih (i + 1) _ (by omega)]
      simp only [hshift]
      rfl

/-- The driver sends the chunks of the count and the data. -/
theorem writeBlock_eq_sendChunks (address : UInt) (command : Byte) (data : List Byte) (len : Byte)
    (s : S) (h : data.length = len.toNat) :
    writeBlock d address command data len s =
      match sendChunks d (setupOf address command) (chunks 64 (len :: data)) s with
      | (.error status, s) => (status, s)
      | (.ok (), s) => (len.toNat, s) := by
  have htmp : (len :: data).length = len.toNat + 1 := by simp [h]
  have hmod : (len.toNat + 1) % 64 = len.toNat + 1 - (len.toNat + 1) / 64 * 64 := by omega
  have hrest : ((len :: data).drop ((len.toNat + 1) / 64 * 64)).length =
      len.toNat + 1 - (len.toNat + 1) / 64 * 64 := by
    rw [List.length_drop, htmp]
  have hwhole := writeBlockWhole_eq d (setupOf address command) (len :: data)
    ((len.toNat + 1) / 64) 0 s (by rw [htmp]; omega)
  simp only [Nat.zero_add] at hwhole
  have htake : data.take len.toNat = data := List.take_of_length_le (by omega)
  simp only [writeBlock, chunks, htmp, htake, sendChunks_append, ← hwhole, hmod]
  cases writeBlockWhole d (setupOf address command) (len :: data) ((len.toNat + 1) / 64) 0 s with
  | mk r s' =>
      cases r with
      | error status => rfl
      | ok u =>
          by_cases hpos : 0 < len.toNat + 1 - (len.toNat + 1) / 64 * 64
          · simp only [hpos, if_true, sendChunks, hrest]
            rw [List.take_of_length_le (by omega)]
            split <;> rfl
          · simp only [hpos, if_false, sendChunks]

end Chunks

/-! ## Requests -/

section Requests

variable {T : Target} {setup : Setup} {s₀ s s' : Fx2} {data : List Byte} {m : Nat}

theorem Fx2.expire_load (data : List Byte) : (s.load data).expire = s.expire.load data := by
  by_cases h : 0 < s.templen ∧ blockSeqTimeout < s.count
  · simp only [Fx2.expire, Fx2.load, h, and_self, if_true]
  · simp only [Fx2.expire, Fx2.load, h, if_false]

/-- The frame of a block write with this setup packet. -/
def writeFrame (pec : Bool) (setup : Setup) (data : List Byte) : List Byte :=
  blockFrame pec (toByte setup.value) (toByte setup.index) (BitVec.ofNat 8 data.length) data

variable (T setup data) in
/-- A block that fits into one chunk is sent at once. -/
theorem serve_whole (hidle : s.expire.templen = 0) (hlen : data.length < 64) :
    let r := sendFrame T (writeFrame s.pecEnabled setup data) s.toI2c
    ∃ s', serve T smbWriteBlock setup (s.load (BitVec.ofNat 8 data.length :: data)) = (r.1, s') ∧
      s'.toI2c = r.2 ∧ s'.oob = s.oob ∧ s'.templen = s.expire.templen ∧
      s'.tempptr = s.expire.tempptr := by
  intro r
  have hcount : (BitVec.ofNat 8 data.length).toNat = data.length := by simp; omega
  have hfirst : (s.load (BitVec.ofNat 8 data.length :: data)).ep0buf 0 =
      BitVec.ofNat 8 data.length := Mem.write_cons_self s.ep0buf 0 _ data
  have hread : (s.load (BitVec.ofNat 8 data.length :: data)).ep0buf.read 1 data.length = data := by
    have := Mem.read_write_cons s.ep0buf 0 (BitVec.ofNat 8 data.length) (Nat.le_refl data.length)
    rwa [List.take_length] at this
  obtain ⟨o, -, ho, hrun⟩ := writeBlock_sends T loopFuel setup.value setup.index (by decide)
    (s.load (BitVec.ofNat 8 data.length :: data)) (by rw [Fx2.expire_load]; exact hidle)
    (by rw [hfirst, hcount]; omega)
  rw [hfirst, hcount, hread] at hrun
  refine ⟨_, serve_of_run _ hrun, rfl, ?_, ?_, ?_⟩
  · exact ho (by rw [hfirst, hcount]; exact hlen)
  · rw [Fx2.expire_load]
    rfl
  · rw [Fx2.expire_load]
    rfl

/-- A sequence is live that began at `s₀`, and the first `m` bytes of its data are
in `temp`. -/
structure Pending (s₀ : Fx2) (data : List Byte) (m : Nat) (s : Fx2) : Prop where
  trace : s.trace = s₀.trace
  pec : s.pecEnabled = s₀.pecEnabled
  templen : s.templen.toNat = data.length
  tempptr : s.tempptr.toNat = m
  stored : s.temp.read 0 m = data.take m
  oob : s.oob = (s₀.oob || decide (tempSize < m))

/-- Ticks do not touch a sequence. -/
theorem Pending.tick (h : Pending s₀ data m s) (ticks : Nat) : Pending s₀ data m (s.tick ticks) :=
  ⟨h.trace, h.pec, h.templen, h.tempptr, h.stored, h.oob⟩

variable (T setup data) in
/-- The first chunk of a long block opens a sequence. -/
theorem Pending.opens (hidle : s.expire.templen = 0) (hlong : 64 < data.length)
    (hlen : data.length < 256) :
    ∃ s', serve T smbWriteBlock setup
        (s.load (BitVec.ofNat 8 data.length :: data.take 63)) = (true, s') ∧
      Pending s data 63 s' ∧ s'.count = 0 := by
  have hcount : (BitVec.ofNat 8 data.length).toNat = data.length := by simp; omega
  have hrun := writeBlock_opens T loopFuel setup.value setup.index (by decide)
    (s.load (BitVec.ofNat 8 data.length :: data.take 63)) (by rw [Fx2.expire_load]; exact hidle)
    (by simp only [Fx2.load, Mem.write_cons_self, hcount]; exact hlong)
  refine ⟨_, serve_of_run _ hrun, ⟨rfl, rfl, ?_, rfl, ?_, ?_⟩, rfl⟩
  · simp [Fx2.load]
    omega
  · have htake : (data.take 63).length = 63 := by
      rw [List.length_take]
      omega
    have hread :=
      Mem.read_write_cons s.ep0buf 0 (BitVec.ofNat 8 data.length) (Nat.le_of_eq htake.symm)
    rw [List.take_take, Nat.min_self, Nat.zero_add] at hread
    simp only [Fx2.load, hread]
    rw [Mem.read_write_take _ _ (Nat.le_of_eq htake.symm), List.take_take, Nat.min_self]
  · simp [Fx2.load, tempSize]

variable (T setup) in
/-- A chunk inside a sequence that is in time is stored. -/
theorem Pending.stores (h : Pending s₀ data m s) (hlive : s.count ≤ blockSeqTimeout)
    (hlen : data.length < 256) (hm : m + 64 < data.length) :
    ∃ s', serve T smbWriteBlock setup (s.load ((data.drop m).take 64)) = (true, s') ∧
      Pending s₀ data (m + 64) s' ∧ s'.count = s.count := by
  have hchunk : ((data.drop m).take 64).length = 64 := by
    rw [List.length_take, List.length_drop]
    omega
  have hrun := writeBlock_stores T loopFuel setup.value setup.index (by decide)
    (s.load ((data.drop m).take 64)) hlive (by simpa [Fx2.load, h.templen] using hlen)
    (by simpa [Fx2.load, h.templen, h.tempptr] using hm)
  have hread : (s.load ((data.drop m).take 64)).ep0buf.read 0 64 = (data.drop m).take 64 := by
    have := Mem.read_write s.ep0buf 0 ((data.drop m).take 64)
    rwa [hchunk] at this
  refine ⟨_, serve_of_run _ hrun, ⟨h.trace, h.pec, h.templen, ?_, ?_, ?_⟩, rfl⟩
  · simp [Fx2.load, h.tempptr]
    omega
  · simp only [hread]
    simp only [Fx2.load, h.tempptr]
    have h1 := Mem.read_write s.temp m ((data.drop m).take 64)
    rw [hchunk] at h1
    rw [Mem.read_add, Nat.zero_add, h1, Mem.read_write_of_disjoint _ (by simp), h.stored,
      ← List.take_add]
  · simp only [Fx2.load, h.tempptr, h.oob, Bool.or_assoc, ← Bool.decide_or]
    congr 2
    simp only [tempSize, eq_iff_iff]
    omega

variable (T setup) in
/-- The last chunk of a sequence that is in time has the frame sent. -/
theorem Pending.completes (h : Pending s₀ data m s) (hlive : s.count ≤ blockSeqTimeout)
    (hlen : data.length < 256) (hm : m < data.length) (hlast : data.length ≤ m + 64) :
    let r := sendFrame T (writeFrame s₀.pecEnabled setup data) s.toI2c
    ∃ s', serve T smbWriteBlock setup (s.load (data.drop m)) = (r.1, s') ∧ s'.toI2c = r.2 ∧
      s'.oob = (s₀.oob || decide (tempSize < data.length)) ∧
      s'.tempptr.toNat ≤ s'.templen.toNat ∧ s'.templen.toNat ≤ data.length ∧
      (r.1 = true → s'.templen = 0 ∧ s'.tempptr = 0) := by
  intro r
  have hrun := writeBlock_completes T loopFuel setup.value setup.index (by decide)
    (s.load (data.drop m)) hlive (by simpa [Fx2.load, h.templen] using hlen)
    (by simpa [Fx2.load, h.templen, h.tempptr] using hm)
    (by simpa [Fx2.load, h.templen, h.tempptr] using hlast)
  have hn : (s.load (data.drop m)).templen.toNat - (s.load (data.drop m)).tempptr.toNat =
      (data.drop m).length := by
    rw [List.length_drop]
    simp [Fx2.load, h.templen, h.tempptr]
  have hread : (s.load (data.drop m)).ep0buf.read 0 (data.drop m).length = data.drop m :=
    Mem.read_write s.ep0buf 0 (data.drop m)
  have htemp : (s.load (data.drop m)).temp.read 0 (s.load (data.drop m)).tempptr.toNat =
      data.take m := by
    simp [Fx2.load, h.tempptr, h.stored]
  have hcount : toByte s.templen = BitVec.ofNat 8 data.length := by
    apply BitVec.eq_of_toNat_eq
    simp [toByte, h.templen]
  have hframe : blockFrame (s.load (data.drop m)).pecEnabled (toByte setup.value)
      (toByte setup.index) (toByte (s.load (data.drop m)).templen) data =
      writeFrame s₀.pecEnabled setup data := by
    simp only [Fx2.load, h.pec, hcount, writeFrame]
  dsimp only at hrun
  rw [hn, hread, htemp, List.take_append_drop, hframe] at hrun
  have hserve := serve_of_run smbWriteBlock hrun
  have hoob : (s.oob || decide (tempSize < data.length)) =
      (s₀.oob || decide (tempSize < data.length)) := by
    rw [h.oob, Bool.or_assoc, ← Bool.decide_or]
    congr 2
    simp only [eq_iff_iff]
    omega
  refine ⟨_, hserve, ?_, ?_, ?_, ?_, ?_⟩
  · split <;> rfl
  · rw [← hoob, ← h.templen]
    split <;> rfl
  · split <;> simp [Fx2.load]
  · split <;> simp [Fx2.load, h.templen]
  · intro hr
    rw [if_pos (show (sendFrame T _ (s.load (data.drop m)).toI2c).1 = true from hr)]
    exact ⟨rfl, rfl⟩

variable (setup) in
/-- A chunk that arrives inside a sequence is taken for its end, whatever call it is
from. -/
theorem Pending.adopts (h : Pending s₀ data m s) (hT : AcksAll T)
    (hlive : s.count ≤ blockSeqTimeout)
    (hlen : data.length < 256) (hm : m < data.length) (hlast : data.length ≤ m + 64)
    (chunk : List Byte) :
    ∃ s' frame, serve T smbWriteBlock setup (s.load chunk) = (true, s') ∧
      s'.trace = s.trace ++ frameTrace frame ∧
      frame.length = data.length + 3 + s.pecEnabled.toNat := by
  have hrun := writeBlock_completes T loopFuel setup.value setup.index (by decide)
    (s.load chunk) hlive (by simpa [Fx2.load, h.templen] using hlen)
    (by simpa [Fx2.load, h.templen, h.tempptr] using hm)
    (by simpa [Fx2.load, h.templen, h.tempptr] using hlast)
  dsimp only at hrun
  generalize hframe : blockFrame (s.load chunk).pecEnabled _ _ _ _ = frame at hrun
  obtain ⟨hok, hext⟩ := sendFrame_of_acks hT frame (s.load chunk).toI2c
  rw [hok, if_pos rfl] at hrun
  refine ⟨_, frame, serve_of_run _ hrun, hext, ?_⟩
  rw [← hframe, length_blockFrame]
  simp [Fx2.load, h.templen, h.tempptr]
  omega

end Requests

/-! ## Calls -/

/-- What a block write has come to: it failed on the way before anything was sent,
or the frame was sent, as far as the target ACKed it. -/
inductive WriteOutcome (T : Target) (way : Nat → Delivery) (s₀ : Fx2) (frame : List Byte)
    (n : Nat) : Except Int Unit × Link → Prop where
  | unsent {status : Int} {l : Link} (trace : l.fx2.trace = s₀.trace)
      (fate : ∃ k, (way k).fate ≠ .delivered)
      (bounds : n ≤ tempSize → s₀.InBounds → l.fx2.InBounds) :
      WriteOutcome T way s₀ frame n (.error status, l)
  | sent {res : Except Int Unit} {l : Link} (b : I2c) (start : b.trace = s₀.trace)
      (bus : l.fx2.toI2c = (sendFrame T frame b).2)
      (ok : (∀ k, (way k).fate = .delivered) → (sendFrame T frame b).1 = true → res = .ok ())
      (oob : l.fx2.oob = (s₀.oob || decide (tempSize < n)))
      (empty : s₀.templen = 0 → s₀.tempptr = 0 → (sendFrame T frame b).1 = true →
        l.fx2.templen = 0 ∧ l.fx2.tempptr = 0)
      (bounds : n ≤ tempSize → s₀.InBounds → l.fx2.InBounds) :
      WriteOutcome T way s₀ frame n (res, l)

section Calls

variable {T : Target} {setup : Setup} {s₀ s : Fx2} {data : List Byte} {m : Nat}
  {way : Nat → Delivery} {l : Link}

theorem Pending.inBounds (h : Pending s₀ data m s) (hm : m ≤ data.length)
    (hlen : data.length ≤ tempSize) (h₀ : s₀.InBounds) : s.InBounds := by
  refine ⟨by rw [h.tempptr, h.templen]; exact hm, by rw [h.templen]; exact hlen, ?_⟩
  rw [h.oob, h₀.oob]
  simp
  omega

variable (T way setup) in
theorem sendChunks_lost (h : (way l.sent).fate.arrives = false) (c : List Byte)
    (cs : List (List Byte)) :
    ∃ status, sendChunks (usb T way) setup (c :: cs) l =
      (.error status, ⟨l.fx2.tick (way l.sent).gap, l.sent + 1⟩) := by
  obtain ⟨status, hneg, hout⟩ := usb_out_lost T way smbWriteBlock setup c h
  refine ⟨status, ?_⟩
  simp only [sendChunks, hout]
  rw [if_pos (by omega)]

variable (way) in
theorem sendChunks_served {b : Bool} {s' : Fx2} {c : List Byte} (cs : List (List Byte))
    (h : (way l.sent).fate.arrives = true)
    (hs : serve T smbWriteBlock setup ((l.fx2.tick (way l.sent).gap).load c) = (b, s')) :
    ∃ status, sendChunks (usb T way) setup (c :: cs) l =
      if b = true ∧ (way l.sent).fate = .delivered then
        sendChunks (usb T way) setup cs ⟨s', l.sent + 1⟩
      else (.error status, ⟨s', l.sent + 1⟩) := by
  obtain ⟨status, hout, hstatus⟩ := usb_out_served h hs
  refine ⟨status, ?_⟩
  simp only [sendChunks, hout, ← hstatus, ne_eq, ite_not]

/-- The rest of a sequence, from the chunk `k + 1` on. -/
theorem Pending.sendChunks_outcome {n k : Nat} (hp : Pending s₀ data m l.fx2)
    (hlen : data.length < 256) (hm : m < data.length) (hsent : l.sent = k + 1)
    (hcount : l.fx2.count = BitVec.ofNat 16 (elapsed way k))
    (hprev : ∀ j ≤ k, (way j).fate = .delivered) (htime : InTime way n)
    (hn : k + 1 + (chunks 64 (data.drop m)).length ≤ n) :
    WriteOutcome T way s₀ (writeFrame s₀.pecEnabled setup data) data.length
      (sendChunks (usb T way) setup (chunks 64 (data.drop m)) l) := by
  induction hrest : data.length - m using Nat.strong_induction_on generalizing m k l with
  | _ rest ih =>
      have hdrop : (data.drop m).length = data.length - m := List.length_drop
      have hticked := hp.tick (way (k + 1)).gap
      rw [← hsent] at hticked
      obtain ⟨c, cs, hc⟩ : ∃ c cs, chunks 64 (data.drop m) = c :: cs := by
        rcases Nat.lt_or_ge 64 (data.drop m).length with hlong | hshort
        · exact ⟨_, _, chunks_cons (by omega) (by omega)⟩
        · exact ⟨_, _, chunks_last (by omega) hshort⟩
      by_cases harr : (way (k + 1)).fate.arrives = true
      swap
      · have hlost : (way l.sent).fate.arrives = false := by rw [hsent]; simpa using harr
        obtain ⟨status, hsend⟩ := sendChunks_lost T setup way hlost c cs
        rw [hc, hsend]
        refine .unsent hticked.trace ⟨k + 1, ?_⟩ fun hn h₀ => hticked.inBounds (by omega) hn h₀
        intro hdel
        simp [hdel, Fate.arrives] at harr
      -- The tick counter was reset by the first chunk, and this one is in time.
      have hcount' : (l.fx2.tick (way l.sent).gap).count =
          BitVec.ofNat 16 (elapsed way (k + 1)) := by
        rw [elapsed_succ, BitVec.ofNat_add, ← hcount, hsent]
        rfl
      have hlive : (l.fx2.tick (way l.sent).gap).count ≤ blockSeqTimeout := by
        rw [hcount']
        refine htime (k + 1) ?_ ⟨fun j hj => hprev j (by omega), harr⟩
        rw [hc, List.length_cons] at hn
        omega
      rw [← hsent] at harr
      rcases Nat.lt_or_ge (m + 64) data.length with hlong | hlast
      · obtain ⟨s', hserve, hp', hcount''⟩ := hticked.stores T setup hlive hlen hlong
        have hcs := chunks_cons (n := 64) (by omega) (l := data.drop m) (by omega)
        rw [List.drop_drop] at hcs
        rw [hcs, List.length_cons] at hn
        obtain ⟨status, hsend⟩ := sendChunks_served way (chunks 64 (data.drop (m + 64))) harr hserve
        rw [hcs, hsend]
        by_cases hdel : (way l.sent).fate = .delivered
        · rw [if_pos ⟨rfl, hdel⟩]
          refine ih (data.length - (m + 64)) (by omega) (k := k + 1) hp' hlong (by rw [hsent])
            (by rw [hcount'', hcount']) ?_ (by omega) rfl
          intro j hj
          rcases Nat.lt_or_ge k j with hkj | hjk
          · rwa [show j = l.sent by omega]
          · exact hprev j hjk
        · rw [if_neg (fun h => hdel h.2)]
          exact .unsent hp'.trace ⟨l.sent, hdel⟩ fun hn h₀ => hp'.inBounds (by omega) hn h₀
      · obtain ⟨s', hserve, hbus, hoob, hptr, htl, hempty⟩ :=
          hticked.completes T setup hlive hlen hm hlast
        have hcs := chunks_last (n := 64) (l := data.drop m) (by omega) (by omega)
        obtain ⟨status, hsend⟩ := sendChunks_served way [] harr hserve
        rw [hcs, hsend]
        have hbounds : data.length ≤ tempSize → s₀.InBounds → s'.InBounds := by
          intro hn h₀
          refine ⟨hptr, by omega, ?_⟩
          rw [hoob, h₀.oob]
          simp
          omega
        split
        · exact .sent _ hticked.trace hbus (fun _ _ => rfl) hoob (fun _ _ => hempty) hbounds
        · next hfail =>
          refine .sent _ hticked.trace hbus ?_ hoob (fun _ _ => hempty) hbounds
          intro hall hr
          exact absurd ⟨hr, hall l.sent⟩ hfail

variable (T way setup data) in
/-- A block write that finds no live sequence, and whose chunks are in time. -/
theorem sendChunks_outcome (hsent : l.sent = 0) (hlen : data.length < 256)
    (h64 : data.length ≠ 64)
    (hidle : (way 0).fate.arrives = true → (l.fx2.tick (way 0).gap).expire.templen = 0)
    (htime : InTime way (chunks 64 (BitVec.ofNat 8 data.length :: data)).length) :
    WriteOutcome T way l.fx2 (writeFrame l.fx2.pecEnabled setup data) data.length
      (sendChunks (usb T way) setup (chunks 64 (BitVec.ofNat 8 data.length :: data)) l) := by
  have hticked : l.fx2.InBounds → (l.fx2.tick (way l.sent).gap).InBounds :=
    fun h => ⟨h.ptr, h.len, h.oob⟩
  obtain ⟨c, cs, hc⟩ : ∃ c cs, chunks 64 (BitVec.ofNat 8 data.length :: data) = c :: cs := by
    rcases Nat.lt_or_ge 64 (data.length + 1) with hlong | hshort
    · exact ⟨_, _, chunks_cons (by omega) (by simp; omega)⟩
    · exact ⟨_, _, chunks_last (by simp) (by simpa using hshort)⟩
  by_cases harr : (way 0).fate.arrives = true
  swap
  · have hlost : (way l.sent).fate.arrives = false := by rw [hsent]; simpa using harr
    obtain ⟨status, hsend⟩ := sendChunks_lost T setup way hlost c cs
    rw [hc, hsend]
    refine .unsent rfl ⟨0, ?_⟩ fun _ h₀ => hticked h₀
    intro hdel
    simp [hdel, Fate.arrives] at harr
  have hidle := hidle harr
  rw [← hsent] at harr hidle
  rcases Nat.lt_or_ge data.length 64 with hshort | hlong
  · obtain ⟨s', hserve, hbus, hoob, htl, hptr⟩ :=
      serve_whole T setup data hidle hshort
    obtain ⟨status, hsend⟩ := sendChunks_served way [] harr hserve
    rw [chunks_last (by simp) (by simpa using hshort), hsend]
    have hempty : l.fx2.templen = 0 → l.fx2.tempptr = 0 → s'.templen = 0 ∧ s'.tempptr = 0 := by
      intro h1 h2
      rw [htl, hptr, Fx2.expire_of_empty (s := l.fx2.tick (way l.sent).gap) h1]
      exact ⟨h1, h2⟩
    have hoob' : s'.oob = (l.fx2.oob || decide (tempSize < data.length)) := by
      have : ¬ tempSize < data.length := by simp only [tempSize]; omega
      simp only [this, decide_false, Bool.or_false]
      exact hoob
    have hbounds : data.length ≤ tempSize → l.fx2.InBounds → s'.InBounds := by
      intro _ h₀
      have h := (hticked h₀).expire
      exact ⟨by rw [htl, hptr]; exact h.ptr, by rw [htl]; exact h.len, by rw [hoob]; exact h₀.oob⟩
    split
    · exact .sent (l.fx2.tick (way l.sent).gap).toI2c rfl hbus (fun _ _ => rfl) hoob'
        (fun h1 h2 _ => hempty h1 h2) hbounds
    · next hfail =>
      refine .sent (l.fx2.tick (way l.sent).gap).toI2c rfl hbus ?_ hoob'
        (fun h1 h2 _ => hempty h1 h2) hbounds
      intro hall hr
      exact absurd ⟨hr, hall l.sent⟩ hfail
  · obtain ⟨s', hserve, hp, hcount⟩ :=
      Pending.opens T setup data hidle (by omega) hlen
    have hp : Pending l.fx2 data 63 s' :=
      ⟨hp.trace, hp.pec, hp.templen, hp.tempptr, hp.stored, hp.oob⟩
    have hcs : chunks 64 (BitVec.ofNat 8 data.length :: data) =
        (BitVec.ofNat 8 data.length :: data.take 63) :: chunks 64 (data.drop 63) :=
      chunks_cons (by omega) (by simp; omega)
    obtain ⟨status, hsend⟩ := sendChunks_served way (chunks 64 (data.drop 63)) harr hserve
    rw [hcs, hsend]
    by_cases hdel : (way l.sent).fate = .delivered
    · rw [if_pos ⟨rfl, hdel⟩]
      refine hp.sendChunks_outcome hlen (by omega) (by rw [hsent]) (by rw [hcount]; rfl) ?_ htime ?_
      · intro j hj
        rwa [show j = l.sent by omega]
      · rw [hcs, List.length_cons]
        omega
    · rw [if_neg (fun h => hdel h.2)]
      exact .unsent hp.trace ⟨l.sent, hdel⟩ fun hn h₀ => hp.inBounds (by omega) hn h₀

end Calls

/-! ## A target that ACKs everything -/

/-- The block write is done: the call says so, the bus saw the frame and nothing else,
the buffer is empty, and no access was past the end of an array. -/
structure WriteDelivers (setup : Setup) (data : List Byte) (s : Fx2) (ret : Int) (s' : Fx2) :
    Prop where
  ret : ret = data.length
  bus : s'.trace = s.trace ++ frameTrace (writeFrame s.pecEnabled setup data)
  templen : s'.templen = 0
  tempptr : s'.tempptr = 0
  oob : s'.oob = false

section Delivers

variable {T : Target} {way : Nat → Delivery} {address : UInt} {command len : Byte}
  {data : List Byte} {s : Fx2}

/-- A request that finds no live sequence is sent at once, if it brings at most 64
bytes by its first byte, and opens a sequence otherwise. -/
theorem serve_idle (setup : Setup) (hT : AcksAll T) (hidle : s.templen = 0) :
    ∃ s', serve T smbWriteBlock setup s = (true, s') ∧
      ((s.ep0buf 0).toNat ≤ 64 ∧ s'.templen = 0 ∧ s'.trace = s.trace ++ frameTrace
          (blockFrame s.pecEnabled (toByte setup.value) (toByte setup.index) (s.ep0buf 0)
            (s.ep0buf.read 1 (s.ep0buf 0).toNat)) ∨
        64 < (s.ep0buf 0).toNat ∧ s'.templen ≠ 0) := by
  have hexp : s.expire.templen = 0 := by rw [Fx2.expire_of_empty hidle]; exact hidle
  rcases Nat.lt_or_ge 64 (s.ep0buf 0).toNat with hbig | hsmall
  · have hrun := writeBlock_opens T loopFuel setup.value setup.index (by decide) s hexp hbig
    refine ⟨_, serve_of_run _ hrun, .inr ⟨hbig, fun h => ?_⟩⟩
    have := congrArg BitVec.toNat h
    simp at this
    omega
  · obtain ⟨o, -, -, hrun⟩ :=
      writeBlock_sends T loopFuel setup.value setup.index (by decide) s hexp hsmall
    obtain ⟨hok, hext⟩ := sendFrame_of_acks hT
      (blockFrame s.pecEnabled (toByte setup.value) (toByte setup.index) (s.ep0buf 0)
        (s.ep0buf.read 1 (s.ep0buf 0).toNat)) s.toI2c
    rw [hok] at hrun
    exact ⟨_, serve_of_run _ hrun, .inl ⟨hsmall, hexp, hext⟩⟩

/-- At the length 64 the firmware sends a frame when it sees the first chunk, and takes
the second chunk for a request of its own. -/
theorem not_writeDelivers_64 (address : UInt) (command : Byte) (hT : AcksAll T)
    (hdel : ∀ k, (way k).fate = .delivered)
    (hlen : data.length = 64) (hempty : s.templen = 0) :
    ¬ WriteDelivers (setupOf address command) data s
      (Fx2lp.writeBlock (usb T way) address command data 64 ⟨s, 0⟩).1
      (Fx2lp.writeBlock (usb T way) address command data 64 ⟨s, 0⟩).2.fx2 := by
  have harr : ∀ k, (way k).fate.arrives = true := fun k => by rw [hdel k]; rfl
  have hcs : chunks 64 (64 :: data) = [64 :: data.take 63, data.drop 63] := by
    have h1 := chunks_cons (n := 64) (by omega) (l := (64 : Byte) :: data) (by simp; omega)
    rw [h1]
    simp only [List.take_succ_cons, List.drop_succ_cons]
    rw [chunks_last (by rw [List.length_drop]; omega) (by rw [List.length_drop]; omega)]
  have hfirst : ((s.tick (way 0).gap).load (64 :: data.take 63)).ep0buf 0 = 64 :=
    Mem.write_cons_self s.ep0buf 0 64 (data.take 63)
  obtain ⟨s₁, hserve₁, ⟨-, hidle₁, htrace₁⟩ | ⟨hbig, -⟩⟩ :=
    serve_idle (s := (s.tick (way 0).gap).load (64 :: data.take 63))
      (setupOf address command) hT hempty
  swap
  · rw [hfirst] at hbig
    exact absurd hbig (by decide)
  obtain ⟨s₂, hserve₂, hsecond⟩ := serve_idle (s := (s₁.tick (way 1).gap).load (data.drop 63))
    (setupOf address command) hT hidle₁
  obtain ⟨status₁, hsend₁⟩ :=
    sendChunks_served (l := ⟨s, 0⟩) way [data.drop 63] (harr 0) hserve₁
  obtain ⟨status₂, hsend₂⟩ := sendChunks_served (l := ⟨s₁, 1⟩) way [] (harr 1) hserve₂
  rw [writeBlock_eq_sendChunks _ _ _ _ _ _ hlen, hcs, hsend₁, if_pos ⟨rfl, hdel 0⟩, hsend₂,
    if_pos ⟨rfl, hdel 1⟩]
  intro h
  rcases hsecond with ⟨-, -, htrace₂⟩ | ⟨-, hopen⟩
  · -- Two frames are longer than the one that was asked for.
    have hbus := congrArg List.length (htrace₂.symm.trans h.bus)
    have hone := congrArg List.length htrace₁
    rw [hfirst] at hone
    have h64 : (64 : Byte).toNat = 64 := rfl
    simp only [List.length_append, length_frameTrace, writeFrame, length_blockFrame,
      Mem.length_read, hlen, h64, Fx2.load, Fx2.tick] at hbus hone
    omega
  · exact hopen h.templen

/-- With a target that ACKs everything and chunks in time, a block write from an empty
buffer is done exactly at the lengths the two sides agree about and `temp` holds. -/
theorem writeDelivers_iff (hT : AcksAll T) (hdel : ∀ k, (way k).fate = .delivered)
    (htime : InTime way (chunks 64 (len :: data)).length) (hlen : data.length = len.toNat)
    (htl : s.templen = 0) (hptr : s.tempptr = 0) (hoob : s.oob = false) :
    WriteDelivers (setupOf address command) data s
        (Fx2lp.writeBlock (usb T way) address command data len ⟨s, 0⟩).1
        (Fx2lp.writeBlock (usb T way) address command data len ⟨s, 0⟩).2.fx2 ↔
      len ≠ 64 ∧ len ≤ 192 := by
  by_cases h64 : len = 64
  · subst h64
    have h := not_writeDelivers_64 address command hT hdel hlen htl
    exact ⟨fun h' => absurd h' h, fun h' => absurd rfl h'.1⟩
  have hlt : data.length < 256 := by omega
  have hcount : len = BitVec.ofNat 8 data.length := by
    rw [hlen, BitVec.ofNat_toNat, BitVec.setWidth_eq]
  have hne : data.length ≠ 64 := by
    rintro h
    exact h64 (hcount.trans (by rw [h]; rfl))
  have hout := sendChunks_outcome (l := ⟨s, 0⟩) T (setupOf address command) data way
    rfl hlt hne
    (fun _ => by rw [Fx2.expire_of_empty (s := s.tick (way 0).gap) htl]; exact htl)
    (by rw [← hcount]; exact htime)
  rw [writeBlock_eq_sendChunks _ _ _ _ _ _ hlen]
  rw [← hcount] at hout
  generalize sendChunks (usb T way) (setupOf address command) (chunks 64 (len :: data)) ⟨s, 0⟩ = r
    at hout ⊢
  cases hout with
  | unsent _ hfate _ =>
      obtain ⟨k, hk⟩ := hfate
      exact absurd (hdel k) hk
  | sent b hstart hbus hok hoob' hempty _ =>
      obtain ⟨hr, hext⟩ :=
        sendFrame_of_acks hT (writeFrame s.pecEnabled (setupOf address command) data) b
      obtain rfl := hok hdel hr
      obtain ⟨htl', hptr'⟩ := hempty htl hptr hr
      rw [Extends, ← hbus, hstart] at hext
      have hle : len ≤ 192 ↔ ¬ tempSize < data.length := by
        rw [BitVec.le_def, hlen]
        exact Nat.not_lt.symm
      constructor
      · intro h
        refine ⟨h64, hle.mpr fun hlong => ?_⟩
        rw [h.oob, hoob] at hoob'
        simp [hlong] at hoob'
      · rintro ⟨-, hshort⟩
        refine ⟨by rw [hlen], hext, htl', hptr', ?_⟩
        rw [hoob', hoob, decide_eq_false (hle.mp hshort)]
        rfl

end Delivers

theorem writeDelivers_three :
    WriteDelivers (setupOf 0x16 0x20) [1, 2, 3] Fx2.init
      (Fx2lp.writeBlock (usb (.answers []) (Delivery.all 0)) 0x16 0x20 [1, 2, 3] 3 ⟨Fx2.init, 0⟩).1
      (Fx2lp.writeBlock (usb (.answers []) (Delivery.all 0)) 0x16 0x20 [1, 2, 3] 3
        ⟨Fx2.init, 0⟩).2.fx2 :=
  (writeDelivers_iff (acksAll_answers []) (fun _ => rfl) (inTime_all_zero _) rfl rfl rfl rfl).mpr
    (by decide)

theorem not_writeDelivers_sevens :
    ¬ WriteDelivers (setupOf 0x16 0x20) (List.replicate 64 7) Fx2.init
      (Fx2lp.writeBlock (usb (.answers []) (Delivery.all 0)) 0x16 0x20 (List.replicate 64 7) 64
        ⟨Fx2.init, 0⟩).1
      (Fx2lp.writeBlock (usb (.answers []) (Delivery.all 0)) 0x16 0x20 (List.replicate 64 7) 64
        ⟨Fx2.init, 0⟩).2.fx2 :=
  not_writeDelivers_64 _ _ (acksAll_answers []) (fun _ => rfl) (List.length_replicate ..) rfl

end Smbusb
