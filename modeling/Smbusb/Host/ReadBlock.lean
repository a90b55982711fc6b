import Smbusb.Logic.Chunks
import Smbusb.Firmware.ReadBlockData
import Smbusb.Host.Fx2lp

/-!
# Block reads from end to end

The first request of a block read makes the firmware read the whole block; its reply
is the count and the first 63 data bytes.  The host asks again until it has as many
bytes as the count says, and each time the firmware hands out the next 64 bytes of
what it kept.

*The rest.*  `readBlockRest_outcome` is the host's loop, for every fate of its
requests: it fails, or it gets exactly the bytes that were outstanding.

*The call.*  `readBlock_outcome` puts the first request before it.  It is about a call
that finds nothing outstanding and whose requests are in time.
-/

namespace Smbusb

open Logic Prog Fw Fx2lp

/-! ## The rest of a block -/

/-- What the host's loop has come to, with `rest` outstanding at the start. -/
inductive RestOutcome (way : Nat → Delivery) (rest : List Byte) (fuel total rcvd : Nat)
    (data : Mem Byte) (s : Fx2) : Option (Int × Mem Byte) × Link → Prop where
  | failed {status : Int} {data' : Mem Byte} {l : Link} (neg : status < 0)
      (fate : ∃ k, (way k).fate ≠ .delivered) :
      RestOutcome way rest fuel total rcvd data s (some (status, data'), l)
  | running {l : Link} (early : fuel ≤ (chunks 64 rest).length) :
      RestOutcome way rest fuel total rcvd data s (none, l)
  | done {l : Link} (trace : l.fx2.trace = s.trace)
      (empty : l.fx2.templen = 0 ∧ l.fx2.tempptr = 0) :
      RestOutcome way rest fuel total rcvd data s (some (total, data.write rcvd rest), l)

section

variable {T : Target} {way : Nat → Delivery} {setup : Setup} {l : Link} {s : Fx2}

variable (T setup) in
theorem serve_hands_out {rest : List Byte} (h : Outstanding rest s) (hpos : 0 < rest.length)
    (hlive : s.count ≤ blockSeqTimeout) :
    ∃ s', serve T smbReadBlock setup s = (true, s') ∧ s'.reply 64 = rest.take 64 ∧
      s'.toI2c = s.toI2c ∧ Outstanding (rest.drop 64) s' ∧
      (rest.length ≤ 64 → s'.templen = 0 ∧ s'.tempptr = 0) := by
  obtain ⟨s', hrun, hreply, hbus, -, hrest, hempty⟩ :=
    readBlock_hands_out T loopFuel setup.value setup.index (by decide) h hpos hlive
  exact ⟨s', serve_of_run _ hrun, hreply, hbus, hrest, hempty⟩

/-- The host's loop, from the request `k + 1` on. -/
theorem readBlockRest_outcome {rest : List Byte} {fuel total rcvd k n : Nat} {data : Mem Byte}
    (ho : Outstanding rest l.fx2) (hsum : rcvd + rest.length = total)
    (htrace : l.fx2.trace = s.trace)
    (hempty : rest = [] → l.fx2.templen = 0 ∧ l.fx2.tempptr = 0) (hsent : l.sent = k + 1)
    (hcount : l.fx2.count = BitVec.ofNat 16 (elapsed way k) ∨ rest = [])
    (hprev : ∀ j ≤ k, (way j).fate = .delivered) (htime : InTime way n)
    (hn : k + 1 + (chunks 64 rest).length ≤ n) :
    RestOutcome way rest fuel total rcvd data s
      (readBlockRest (usb T way) setup total fuel rcvd data l) := by
  induction fuel generalizing rest rcvd k data l with
  | zero => exact .running (Nat.zero_le _)
  | succ fuel ih =>
      by_cases hmore : rcvd < total
      swap
      · have hnil : rest = [] := List.eq_nil_of_length_eq_zero (by omega)
        subst hnil
        have hdone : RestOutcome way [] (fuel + 1) total rcvd data s
            (some (total, data.write rcvd []), l) := .done htrace (hempty rfl)
        rw [Mem.write_nil] at hdone
        rwa [readBlockRest, if_neg hmore]
      have hpos : 0 < rest.length := by omega
      have hne : rest ≠ [] := List.length_pos_iff.mp hpos
      have hcs := chunks_of_ne_nil (n := 64) (by omega) hne
      rw [hcs, List.length_cons] at hn
      rw [readBlockRest, if_pos hmore]
      by_cases harr : (way l.sent).fate.arrives = true
      swap
      · obtain ⟨status, hneg, hinp⟩ := usb_inp_lost T way smbReadBlock setup 64
          (by simpa using harr)
        simp only [hinp, hneg, if_true]
        refine .failed hneg ⟨l.sent, fun hdel => ?_⟩
        simp [hdel, Fate.arrives] at harr
      have hcount' : (l.fx2.tick (way l.sent).gap).count =
          BitVec.ofNat 16 (elapsed way (k + 1)) := by
        rw [elapsed_succ, BitVec.ofNat_add, ← hcount.resolve_right hne, hsent]
        rfl
      have hlive : (l.fx2.tick (way l.sent).gap).count ≤ blockSeqTimeout := by
        rw [hcount']
        exact htime (k + 1) (by omega) ⟨fun j hj => hprev j (by omega), by rwa [← hsent]⟩
      obtain ⟨s', hserve, hreply, hbus, ho', hempty'⟩ :=
        serve_hands_out T setup (ho.tick (way l.sent).gap) hpos hlive
      obtain ⟨status, hneg, hinp⟩ := usb_inp_served way 64 harr hserve
      simp only [hinp]
      by_cases hdel : (way l.sent).fate = .delivered
      swap
      · simp only [hdel, and_false, if_false, hneg, if_true]
        exact .failed hneg ⟨l.sent, hdel⟩
      have hlen : (rest.take 64).length + (rest.drop 64).length = rest.length := by
        rw [← List.length_append, List.take_append_drop]
      have hnonneg : ¬ ((rest.take 64).length : Int) < 0 := by omega
      simp only [hdel, hreply, true_and, if_true, hnonneg, if_false, Int.toNat_natCast,
        List.take_length]
      have hih : RestOutcome way (rest.drop 64) fuel total (rcvd + (rest.take 64).length)
          (data.write rcvd (rest.take 64)) s
          (readBlockRest (usb T way) setup total fuel (rcvd + (rest.take 64).length)
            (data.write rcvd (rest.take 64)) ⟨s', l.sent + 1⟩) := ih (k := k + 1) ho' (by omega)
        ((congrArg I2c.trace hbus).trans htrace)
        (fun hnil => hempty' (by rw [List.drop_eq_nil_iff] at hnil; exact hnil)) (by rw [hsent])
        (.inl ((congrArg I2c.count hbus).trans hcount')) ?_ (by omega)
      · generalize readBlockRest (usb T way) setup total fuel (rcvd + (rest.take 64).length)
          (data.write rcvd (rest.take 64)) ⟨s', l.sent + 1⟩ = r at hih ⊢
        cases hih with
        | failed hneg hfate => exact .failed hneg hfate
        | running hearly =>
            refine .running ?_
            rw [hcs, List.length_cons]
            omega
        | done htr hemp =>
            rw [Mem.write_append, List.take_append_drop]
            exact .done htr hemp
      · intro j hj
        rcases Nat.lt_or_ge k j with hkj | hjk
        · rwa [show j = l.sent by omega]
        · exact hprev j hjk

/-! ## The call -/

/-- The data of a block: what is behind the count. -/
def blockData (f : Nat → Byte) (n : Nat) : List Byte := firstBytes (fun i => f (1 + i)) n

theorem firstBytes_eq_cons (f : Nat → Byte) (n : Nat) :
    firstBytes f (n + 1) = f 0 :: blockData f n := by
  have h := List.take_append_drop 1 (firstBytes f (n + 1))
  rw [drop_firstBytes, take_firstBytes] at h
  rw [← h, Nat.min_eq_left (by omega), Nat.add_sub_cancel]
  rfl

/-- What a block read has come to when its first request had a block as its answer. -/
inductive ReadOutcome (way : Nat → Delivery) (fuel : Nat) (f : Nat → Byte) (n : Nat)
    (data : Mem Byte) (s : Fx2) : Option (Int × Mem Byte) × Link → Prop where
  | failed {status : Int} {data' : Mem Byte} {l : Link} (neg : status < 0)
      (fate : ∃ k, (way k).fate ≠ .delivered) :
      ReadOutcome way fuel f n data s (some (status, data'), l)
  | running {l : Link} (early : fuel < 4) : ReadOutcome way fuel f n data s (none, l)
  | done {l : Link} (trace : l.fx2.trace = s.trace)
      (empty : 63 < n ∨ s.templen = 0 ∧ s.tempptr = 0 → l.fx2.templen = 0 ∧ l.fx2.tempptr = 0) :
      ReadOutcome way fuel f n data s (some (n, data.write 0 (blockData f n)), l)

/-- The call goes on from a first request that had a block as its answer. -/
theorem readBlock_outcome {s' : Fx2} {f : Nat → Byte} {n : Nat} (fuel : Nat) (data : Mem Byte)
    {address : UInt} {command : Byte} (hdel : (way 0).fate = .delivered)
    (hserve : serve T smbReadBlock (setupOf address command) (s.tick (way 0).gap) = (true, s'))
    (hn : (f 0).toNat = n) (h1 : 0 < n) (h2 : n < 254)
    (hready : BlockReady f n (s.tick (way 0).gap) s')
    (htime : InTime way 4) :
    ReadOutcome way fuel f n data s'
      (Fx2lp.readBlock (usb T way) fuel address command data ⟨s, 0⟩) := by
  have harr : (way 0).fate.arrives = true := by rw [hdel]; rfl
  obtain ⟨status, -, hinp⟩ := usb_inp_served (l := ⟨s, 0⟩) way 64 harr hserve
  have htake : (firstBytes f (n + 1)).take 64 = f 0 :: (blockData f n).take 63 := by
    rw [firstBytes_eq_cons]
    rfl
  have hlen : (blockData f n).length = n := by simp [blockData]
  have hrcvd : ((f 0 :: (blockData f n).take 63).length : Int).toNat - 1 =
      ((blockData f n).take 63).length := by
    rw [Int.toNat_natCast, List.length_cons, Nat.add_sub_cancel]
  have hpos : ¬ ((f 0 :: (blockData f n).take 63).length : Int) ≤ 0 := by
    rw [List.length_cons]
    omega
  simp only [Fx2lp.readBlock, hinp, hdel, hready.reply, htake, true_and, if_true, hpos, if_false,
    List.headD_cons, hn, List.drop_succ_cons, List.drop_zero, hrcvd, List.take_length]
  rcases Nat.lt_or_ge 63 n with hlong | hshort
  · obtain ⟨ho, hcount⟩ := hready.long hlong
    have hdrop : (firstBytes f (n + 1)).drop 64 = (blockData f n).drop 63 := by
      rw [firstBytes_eq_cons]
      rfl
    rw [hdrop] at ho
    have hrest : ((blockData f n).drop 63).length = n - 63 := by rw [List.length_drop, hlen]
    have hchunks : (chunks 64 ((blockData f n).drop 63)).length ≤ 3 :=
      length_chunks_le (by omega) (by omega)
    have hout : RestOutcome way ((blockData f n).drop 63) fuel n ((blockData f n).take 63).length
        (data.write 0 ((blockData f n).take 63)) s'
        (readBlockRest (usb T way) (setupOf address command) n fuel
          ((blockData f n).take 63).length (data.write 0 ((blockData f n).take 63)) ⟨s', 1⟩) :=
      readBlockRest_outcome ho
      (by rw [← List.length_append, List.take_append_drop, hlen]) rfl
      (fun hnil => by rw [hnil] at hrest; simp at hrest; omega) rfl (.inl hcount)
      (fun j hj => by rwa [Nat.le_zero.mp hj]) htime (by omega)
    generalize readBlockRest (usb T way) (setupOf address command) n fuel
      ((blockData f n).take 63).length (data.write 0 ((blockData f n).take 63)) ⟨s', 1⟩ = r
      at hout ⊢
    cases hout with
    | failed hneg hfate => exact .failed hneg hfate
    | running hearly => exact .running (by omega)
    | done htr hemp =>
        have happ := Mem.write_append data 0 ((blockData f n).take 63) ((blockData f n).drop 63)
        rw [Nat.zero_add, List.take_append_drop] at happ
        rw [happ]
        exact .done htr fun _ => hemp
  · have hall : (blockData f n).take 63 = blockData f n :=
      List.take_of_length_le (by rw [hlen]; exact hshort)
    rw [hall, hlen]
    cases fuel with
    | zero => exact .running (by omega)
    | succ fuel =>
        rw [readBlockRest, if_neg (Nat.lt_irrefl n)]
        exact .done rfl fun h => h.resolve_left (by omega)

/-- The events that address the target of a request for a read. -/
def addressing (setup : Setup) : List Event :=
  addressEvents (toByte setup.value) (toByte setup.index) (toByte (setup.value + 1))

/-- The PEC of a block: over the address, the command, the read address, the count and
the data. -/
def blockPec (setup : Setup) (block : List Byte) : Byte :=
  crc8 (readAddress setup.value setup.index ++ BitVec.ofNat 8 block.length :: block)

/-- A block, its count before it and its PEC behind it, as a stream. -/
def blockStream (block : List Byte) (pec : Byte) : Nat → Byte := fun i =>
  (BitVec.ofNat 8 block.length :: block ++ [pec]).getD i 0

theorem blockStream_zero (block : List Byte) (pec : Byte) :
    blockStream block pec 0 = BitVec.ofNat 8 block.length := rfl

theorem blockStream_last (block : List Byte) (pec : Byte) :
    blockStream block pec (block.length + 1) = pec := by
  simp [blockStream]

theorem blockData_blockStream (block : List Byte) (pec : Byte) :
    blockData (blockStream block pec) block.length = block := by
  refine List.ext_getElem (by simp [blockData]) fun i h1 h2 => ?_
  simp [blockData, firstBytes, blockStream, Nat.add_comm 1 i, List.getElem?_append_left h2,
    List.getElem?_eq_getElem h2]

theorem firstBytes_blockStream (block : List Byte) (pec : Byte) :
    firstBytes (blockStream block pec) (block.length + 1) =
      BitVec.ofNat 8 block.length :: block := by
  rw [firstBytes_eq_cons, blockData_blockStream, blockStream_zero]

theorem readPec_blockStream (setup : Setup) (block : List Byte) (pec : Byte) :
    readPec true setup.value setup.index (blockStream block pec) (block.length + 1) =
      blockPec setup block := by
  simp only [readPec, if_true, firstBytes_blockStream, blockPec]

/-- A block read from an empty buffer, from a target that ACKs the three bytes that address it and
sends a block of up to 253 bytes: the bus shows one whole read, and the call returns the block, or
fails because of the PEC. -/
theorem readBlock_whole (hT : Responsive T) (hdel : ∀ k, (way k).fate = .delivered)
    (htime : InTime way 4) {address : UInt} {command pec : Byte} {block : List Byte} {fuel : Nat}
    {data : Mem Byte} (hA : AcksAddress T (setupOf address command).value
      (setupOf address command).index s.trace) (hfuel : 4 ≤ fuel)
    (h1 : 1 ≤ block.length) (h2 : block.length ≤ 253) (htl : s.templen = 0) (hptr : s.tempptr = 0)
    (hstream : Streams T
      (s.trace ++ addressing (setupOf address command)) (blockStream block pec)) :
    let r := Fx2lp.readBlock (usb T way) fuel address command data ⟨s, 0⟩
    let good := s.pecEnabled = true → pec = blockPec (setupOf address command) block
    (∃ ext, r.2.fx2.trace = s.trace ++ addressing (setupOf address command) ++ ext ∧
      EndsRead (BitVec.ofNat 8 block.length :: block) pec ext) ∧
    (good → (∃ data', r.1 = some ((block.length : Int), data') ∧
      data'.read 0 block.length = block) ∧ r.2.fx2.templen = 0 ∧ r.2.fx2.tempptr = 0) ∧
    (¬ good → (∃ status data', r.1 = some (status, data') ∧ status < 0) ∧
      r.2.fx2.pecFailed = true) := by
  intro r good
  have hcount : (blockStream block pec 0).toNat = block.length := by
    rw [blockStream_zero]
    simp
    omega
  have hidle : (s.tick (way 0).gap).expire.templen = (s.tick (way 0).gap).expire.tempptr := by
    rw [Fx2.expire_of_empty (s := s.tick (way 0).gap) htl]
    exact htl.trans hptr.symm
  obtain ⟨ok, s', hrun, ⟨ext, htrace, hends⟩, hgood, hbad⟩ :=
    readBlock_fresh_acks (s := s.tick (way 0).gap) loopFuel (setupOf address command).value
      (setupOf address command).index hT hA (by decide) hidle hstream hcount h1 (by omega)
  rw [firstBytes_blockStream, blockStream_last] at hends
  rw [blockStream_last, readPec_blockStream] at hgood hbad
  have hserve : serve T smbReadBlock (setupOf address command) (s.tick (way 0).gap) = (ok, s') :=
    serve_of_run _ hrun
  have hbus : ∀ s'' : Fx2, s''.trace = s'.trace → ∃ ext,
      s''.trace = s.trace ++ addressing (setupOf address command) ++ ext ∧
      EndsRead (BitVec.ofNat 8 block.length :: block) pec ext :=
    fun s'' h => ⟨ext, h.trans htrace, hends⟩
  by_cases hg : good
  · obtain ⟨rfl, hready⟩ := hgood hg
    have hout := readBlock_outcome fuel data (hdel 0) hserve hcount h1 (by omega) hready htime
    have hstart : 63 < block.length ∨ s'.templen = 0 ∧ s'.tempptr = 0 := by
      rcases Nat.lt_or_ge 63 block.length with hlong | hshort
      · exact .inl hlong
      · obtain ⟨e1, e2⟩ := hready.short hshort
        rw [Fx2.expire_of_empty (s := s.tick (way 0).gap) htl] at e1 e2
        exact .inr ⟨e1.trans htl, e2.trans hptr⟩
    rw [show Fx2lp.readBlock (usb T way) fuel address command data ⟨s, 0⟩ = r from rfl] at hout
    generalize r = r' at hout ⊢
    cases hout with
    | failed _ hfate =>
        obtain ⟨k, hk⟩ := hfate
        exact absurd (hdel k) hk
    | running hearly => omega
    | done htr hempty =>
        refine ⟨hbus _ htr, fun _ => ⟨⟨_, rfl, ?_⟩, hempty hstart⟩, fun h => absurd hg h⟩
        have hread := Mem.read_write data 0 (blockData (blockStream block pec) block.length)
        rwa [blockData_blockStream] at hread ⊢
  · have hon : s.pecEnabled = true := by
      by_contra h
      exact hg fun h' => absurd h' h
    obtain ⟨rfl, hfailed, -⟩ := hbad hon fun h => hg fun _ => h
    obtain ⟨status, hneg, hinp⟩ := usb_inp_served (l := ⟨s, 0⟩) way 64
      (by rw [hdel]; rfl) hserve
    have hr : r = (some (status, data), ⟨s', 1⟩) := by
      have hle : status ≤ 0 := Int.le_of_lt hneg
      simp only [r, Fx2lp.readBlock, hinp, Bool.false_eq_true, false_and, if_false, hle, if_true]
    rw [hr]
    exact ⟨hbus _ rfl, fun h => absurd h hg, fun _ => ⟨⟨status, data, rfl, hneg⟩, hfailed⟩⟩

end

/-- A block of three bytes, with its PEC. -/
theorem readBlock_whole_three :
    ∃ data', (Fx2lp.readBlock (usb (.answers [3, 1, 2, 4, blockPec (setupOf 0x16 0x23) [1, 2, 4]])
      (Delivery.all 0)) 4 0x16 0x23 (fun _ => 0) ⟨Fx2.init, 0⟩).1 = some (3, data') ∧
      data'.read 0 3 = [1, 2, 4] :=
  ((readBlock_whole (s := Fx2.init) (responsive_answers _) (fun _ => rfl) (inTime_all_zero 4)
    ((acksAll_answers _).acksAddress _) (Nat.le_refl 4) (by decide) (by decide) rfl rfl
    (show Streams _ _ (blockStream [1, 2, 4] (blockPec (setupOf 0x16 0x23) [1, 2, 4])) from
      streams_answers _ rfl)).2.1 fun _ => rfl).1

end Smbusb
