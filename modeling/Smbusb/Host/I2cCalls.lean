import Smbusb.Host.I2cBus
import Smbusb.Host.ReadByHand

/-!
# Calls to a device behind an I2C adapter

What the calls of a program do to a device through the I2CDEV driver.

*Functions.*  Most of them select the address and make one transfer (`selected`).  `selected_write`
and `selected_read` say what such a call comes to, for a transfer that is a frame or a read.

*Blocks.*  A block is sent or received with messages of its own.  The driver asks for 65 bytes
always, so it gets a block of up to 64 bytes whole.

*Transactions.*  `transaction_done` says that every transaction is a call of the device, as
`transaction_called` says of the other driver.
-/

namespace Smbusb

open Logic

/-- What a call comes to, at the device and elsewhere. -/
structure FileDone {S D : Type} (dev : BusDevice D) (calm : Prop) (view : FileView S D)
    (address : UInt) (op : BusOp) (usable : Prop) (c : I2cCtx S) (r : Option (List Byte))
    (c' : I2cCtx S) : Prop where
  pec : view.pec c'.file = view.pec c.file
  called : wire address = dev.addr → usable →
    Called dev.object op (view.mem c.file) r (view.mem c'.file)
  succeeds : wire address = dev.addr → usable → calm → address < 0x100 → r ≠ none
  elsewhere : wire address ≠ dev.addr → r = none ∧ view.mem c'.file = view.mem c.file

theorem FileDone.weaken {S D : Type} {dev : BusDevice D} {calm : Prop} {view : FileView S D}
    {address : UInt} {op : BusOp} {usable usable' : Prop} {c c' : I2cCtx S}
    {r : Option (List Byte)} (h : FileDone dev calm view address op usable c r c')
    (himp : usable' → usable) : FileDone dev calm view address op usable' c r c' :=
  ⟨h.pec, fun ha hu => h.called ha (himp hu), fun ha hu => h.succeeds ha (himp hu), h.elsewhere⟩

namespace I2cdev

section

variable {S D : Type} {k : DataAdapter S} {dev : BusDevice D} {calm : Prop} {view : FileView S D}
  {fuel : Nat} {address : UInt} {command : Byte} {f : Format} {data : List Byte} {c : I2cCtx S}
  {rest : I2cCtx S → Option (Int × I2cCtx S)}

/-! ## The address -/

variable (k) in
/-- A function that selects the address, and does something behind that. -/
def selected (fuel : Nat) (address : UInt) (rest : I2cCtx S → Option (Int × I2cCtx S))
    (c : I2cCtx S) : Option (Int × I2cCtx S) := do
  let (ret, c) ← smbusAddress k.toAdapter fuel (address.setWidth 16) c
  if ret < 0 then return (ret, c)
  rest c

/-- The address is selected, or the call fails. -/
theorem selected_cases (hk : k.Serves dev calm view) (hfuel : 0 < fuel) (address : UInt)
    (rest : I2cCtx S → Option (Int × I2cCtx S)) (c : I2cCtx S) :
    (∃ ret c₁, selected k fuel address rest c = some (ret, c₁) ∧ ret < 0 ∧
      view.mem c₁.file = view.mem c.file ∧ view.pec c₁.file = view.pec c.file ∧
      ¬ (calm ∧ address < 0x100)) ∨
    ∃ c₁, selected k fuel address rest c = rest c₁ ∧ view.slave c₁.file = wire address ∧
      view.mem c₁.file = view.mem c.file ∧ view.pec c₁.file = view.pec c.file := by
  obtain ⟨hnot, hmem, hpec, hret, hcalm⟩ := hk.slave c.file ((address.setWidth 16 : Word) >>> 1)
  rw [wire_slave] at hret
  have haddr := onFile_of_not_interrupted (c := c) hfuel hnot
  generalize k.ioctl (.slave ((address.setWidth 16 : Word) >>> 1)) c.file = r at *
  have hrun : selected k fuel address rest c = if r.1.ret < 0 then
      some (r.1.ret, { c with file := r.2 }) else rest { c with file := r.2 } := by
    rw [selected, smbusAddress, haddr]
    rfl
  rcases hret with hneg | ⟨hzero, hslave⟩
  · rw [if_pos hneg] at hrun
    refine .inl ⟨_, _, hrun, hneg, hmem, hpec, fun ⟨h, hlow⟩ => ?_⟩
    rw [hcalm h ?_] at hneg
    · exact absurd hneg (Int.lt_irrefl 0)
    · rw [BitVec.lt_def] at hlow
      rw [BitVec.le_def, BitVec.toNat_ushiftRight, BitVec.toNat_setWidth,
        Nat.shiftRight_eq_div_pow]
      change address.toNat < 256 at hlow
      change address.toNat % 65536 / 2 ≤ 127
      omega
  · rw [if_neg (by rw [hzero]; exact Int.lt_irrefl 0)] at hrun
    exact .inr ⟨_, hrun, hslave, hmem, hpec⟩

/-- A call that has failed without reaching the device. -/
theorem fileDone_missed {op : BusOp} {usable : Prop} {c' : I2cCtx S} {status : Int}
    (result : List Byte) (hneg : status < 0) (hmem : view.mem c'.file = view.mem c.file)
    (hpec : view.pec c'.file = view.pec c.file) (hno : ¬ (calm ∧ address < 0x100)) :
    FileDone dev calm view address op usable c (outcome status result) c' := by
  rw [outcome, if_pos hneg]
  refine ⟨hpec, fun _ _ => ?_, fun _ _ hcalm h => absurd ⟨hcalm, h⟩ hno, fun _ => ⟨rfl, hmem⟩⟩
  rw [hmem]
  exact .missed

variable (f) in
/-- A call that sends the frame of a command. -/
theorem fileDone_sent {c' : I2cCtx S} {r : IoctlResult} (on : Bool)
    (hsent : Sent dev calm (coded on (wire address :: command :: f.encode data))
      (view.mem c.file) r (view.mem c'.file)) (hpec : view.pec c'.file = view.pec c.file) :
    FileDone dev calm view address (.write command data)
      (dev.format command = some f ∧ f.Fits data) c (outcome r.ret []) c' := by
  refine ⟨hpec, ?_, ?_, fun ha => ?_⟩
  · rintro ha ⟨hcmd, hfits⟩
    rw [ha] at hsent
    exact (hsent.called _ hcmd hfits).1
  · rintro ha ⟨hcmd, hfits⟩ hcalm -
    rw [ha] at hsent
    rw [outcome, if_neg (Int.not_lt.mpr ((hsent.called _ hcmd hfits).2 hcalm))]
    exact Option.some_ne_none _
  · rw [coded, List.cons_append] at hsent
    obtain ⟨hneg, hsame⟩ := hsent.elsewhere ha
    exact ⟨if_pos hneg, hsame⟩

/-- A call that reads a command, and makes `result` of the bytes. -/
theorem fileDone_fetched {c' : I2cCtx S} {r : IoctlResult} {bytes result : List Byte} {n : Nat}
    {status : Int} {usable : Prop}
    (hfetched : Fetched dev calm (wire address) command n (view.mem c.file) r bytes
      (view.mem c'.file)) (hpec : view.pec c'.file = view.pec c.file)
    (hcmd : usable → dev.format command = some f) (hf : f ≠ .send)
    (hneg : r.ret < 0 → status < 0)
    (hgot : usable → bytes = Mem.read (dev.replyStream command f (view.mem c.file)) 0 n →
      0 ≤ r.ret → 0 ≤ status ∧ result = (dev.read command (view.mem c.file)).1) :
    FileDone dev calm view address (.read command) usable c (outcome status result) c' := by
  refine ⟨hpec, fun ha husable => ?_, fun ha husable hcalm _ => ?_, fun ha => ?_⟩
  · rw [ha] at hfetched
    obtain ⟨⟨hfail, hcalled⟩ | ⟨hpos, hbytes, hmem⟩, -⟩ := hfetched.called (hcmd husable) hf
    · rw [outcome, if_pos (hneg hfail)]
      exact hcalled
    · obtain ⟨hnonneg, hresult⟩ := hgot husable hbytes hpos
      rw [outcome, if_neg (Int.not_lt.mpr hnonneg), hresult, hmem]
      exact .returned
  · rw [ha] at hfetched
    obtain ⟨⟨hfail, -⟩ | ⟨hpos, hbytes, -⟩, hsucceeds⟩ := hfetched.called (hcmd husable) hf
    · exact absurd (hsucceeds hcalm) (Int.not_le.mpr hfail)
    · rw [outcome, if_neg (Int.not_lt.mpr (hgot husable hbytes hpos).1)]
      exact Option.some_ne_none _
  · obtain ⟨hfail, hsame⟩ := hfetched.elsewhere ha
    exact ⟨if_pos (hneg hfail), hsame⟩

variable (address f data c rest) in
/-- A call whose transfer is the frame of a command. -/
theorem selected_write (hk : k.Serves dev calm view) (hfuel : 0 < fuel)
    (hrest : ∀ c₁, ∃ r c', rest c₁ = some (r.ret, c') ∧ Sent dev calm
      (coded (view.pec c₁.file) (view.slave c₁.file :: command :: f.encode data))
        (view.mem c₁.file) r (view.mem c'.file) ∧ view.pec c'.file = view.pec c₁.file) :
    ∃ status c', selected k fuel address rest c = some (status, c') ∧
      FileDone dev calm view address (.write command data)
        (dev.format command = some f ∧ f.Fits data) c (outcome status []) c' := by
  rcases selected_cases hk hfuel address rest c with
    ⟨ret, c₁, hrun, hneg, hmem, hpec, hno⟩ | ⟨c₁, hrun, hslave, hmem, hpec⟩
  · exact ⟨ret, c₁, hrun, fileDone_missed [] hneg hmem hpec hno⟩
  · obtain ⟨r, c', hcall, hsent, hpec'⟩ := hrest c₁
    rw [hmem, hslave] at hsent
    exact ⟨r.ret, c', hrun.trans hcall, fileDone_sent f _ hsent (hpec'.trans hpec)⟩

/-- A call whose transfer reads a command. -/
theorem selected_read (n : Nat) (value : List Byte → Int) {result : Int → List Byte}
    (hk : k.Serves dev calm view) (hfuel : 0 < fuel)
    (hrest : ∀ c₁, ∃ r bytes c', rest c₁ = some (if r.ret < 0 then r.ret else value bytes, c') ∧
      Fetched dev calm (view.slave c₁.file) command n (view.mem c₁.file) r bytes
        (view.mem c'.file) ∧ view.pec c'.file = view.pec c₁.file)
    (hvalue : ∀ bytes, bytes.length = n → 0 ≤ value bytes ∧ result (value bytes) = bytes)
    (hf : f ≠ .send) (hplain : ∀ bytes, f.Answers bytes → f.encode bytes = bytes ∧
      bytes.length = n) :
    ∃ status c', selected k fuel address rest c = some (status, c') ∧
      FileDone dev calm view address (.read command) (dev.format command = some f) c
        (outcome status (result status)) c' := by
  rcases selected_cases hk hfuel address rest c with
    ⟨ret, c₁, hrun, hneg, hmem, hpec, hno⟩ | ⟨c₁, hrun, hslave, hmem, hpec⟩
  · exact ⟨ret, c₁, hrun, fileDone_missed _ hneg hmem hpec hno⟩
  obtain ⟨r, bytes, c', hcall, hfetched, hpec'⟩ := hrest c₁
  rw [hmem, hslave] at hfetched
  refine ⟨_, c', hrun.trans hcall, fileDone_fetched hfetched (hpec'.trans hpec) id hf
    (fun hneg => by rwa [if_pos hneg]) fun hcmd hbytes hpos => ?_⟩
  obtain ⟨hencode, hlen⟩ := hplain _ (dev.answers (view.mem c.file) hcmd)
  have hread := (read_replyStream dev command f (view.mem c.file)).1
  rw [hencode, hlen, ← hbytes] at hread
  rw [if_neg (Int.not_lt.mpr hpos), hread]
  exact hvalue _ hlen

/-- A transfer with a data block. -/
theorem smbusAccessData_eq (hfuel : 0 < fuel) {readWrite : Byte} {size : DataSize} {word : Word}
    (hnot : ¬ (k.access readWrite command size word c.file).1.Interrupted) :
    smbusAccessData k fuel readWrite command size word c =
      some (((k.access readWrite command size word c.file).1.ret,
        (k.access readWrite command size word c.file).2.1),
        { c with file := (k.access readWrite command size word c.file).2.2 }) := by
  cases fuel with
  | zero => exact absurd hfuel (Nat.lt_irrefl 0)
  | succ fuel => simp only [smbusAccessData, xioctlData, if_neg hnot, Option.map_some]

/-! ## The functions -/

/-- The bytes of a word that was cut to 16 bits. -/
theorem wordBytes_setWidth (w : UInt) :
    wordBytes ((w.setWidth 16 : Word).setWidth 32) = wordBytes w := by
  have hlow : ((w.setWidth 16 : Word).setWidth 32).setWidth 8 = w.setWidth 8 := by
    apply BitVec.eq_of_getLsbD_eq
    intro i hi
    have h₁ : i < 32 := by omega
    simp [hi, h₁]
  have hhigh : (((w.setWidth 16 : Word).setWidth 32) >>> 8).setWidth 8 = (w >>> 8).setWidth 8 := by
    apply BitVec.eq_of_getLsbD_eq
    intro i hi
    have h₁ : 8 + i < 32 := by omega
    have h₂ : 8 + i < 16 := by omega
    simp [hi, h₁, h₂]
  rw [wordBytes, wordBytes, hlow, hhigh]

variable (address command c) in
theorem sendByte_done (hk : k.Serves dev calm view) (hfuel : 0 < fuel) :
    ∃ status c', sendByte k fuel address command c = some (status, c') ∧
      FileDone dev calm view address (.write command []) (dev.format command = some .send) c
        (outcome status []) c' := by
  obtain ⟨status, c', hrun, hdone⟩ := selected_write address .send [] c
    (smbusWriteByte k.toAdapter fuel command) hk hfuel fun c₁ => by
      obtain ⟨hsent, hpec⟩ := hk.byte c₁.file command
      exact ⟨_, _, onFile_of_not_interrupted hfuel hsent.not_interrupted, hsent, hpec⟩
  exact ⟨status, c', hrun, hdone.weaken fun h => ⟨h, rfl⟩⟩

/-- A write with a data block. -/
theorem access_write (hk : k.Serves dev calm view) (hfuel : 0 < fuel) (command : Byte)
    (size : DataSize) (word : Word) (c : I2cCtx S) :
    ∃ r word' c', smbusAccessData k fuel i2cSmbusWrite command size word c =
        some ((IoctlResult.ret r, word'), c') ∧
      Sent dev calm (coded (view.pec c.file) (view.slave c.file :: command :: size.bytes word))
        (view.mem c.file) r (view.mem c'.file) ∧ view.pec c'.file = view.pec c.file := by
  obtain ⟨hsent, hpec⟩ := hk.write c.file command size word
  exact ⟨_, _, _, smbusAccessData_eq hfuel hsent.not_interrupted, hsent, hpec⟩

/-- A read with one. -/
theorem access_read (hk : k.Serves dev calm view) (hfuel : 0 < fuel) (command : Byte)
    (size : DataSize) (word : Word) (c : I2cCtx S) :
    ∃ r word' c', smbusAccessData k fuel i2cSmbusRead command size word c =
        some ((IoctlResult.ret r, word'), c') ∧
      Fetched dev calm (view.slave c.file) command size.count (view.mem c.file) r
        (size.bytes word') (view.mem c'.file) ∧ view.pec c'.file = view.pec c.file := by
  obtain ⟨hfetched, hpec⟩ := hk.read c.file command size word
  exact ⟨_, _, _, smbusAccessData_eq hfuel hfetched.not_interrupted, hfetched, hpec⟩

variable (address command c) in
theorem writeByte_done (hk : k.Serves dev calm view) (hfuel : 0 < fuel) (b : Byte) :
    ∃ status c', writeByte k fuel address command b c = some (status, c') ∧
      FileDone dev calm view address (.write command [b]) (dev.format command = some .byte) c
        (outcome status []) c' := by
  obtain ⟨status, c', hrun, hdone⟩ := selected_write address .byte [b] c
    (smbusWriteByteData k fuel command b) hk hfuel fun c₁ => by
      obtain ⟨r, word, c', hcall, hsent⟩ := access_write hk hfuel command .byteData
        (b.setWidth 16) c₁
      have hbytes : DataSize.byteData.bytes (b.setWidth 16) = [b] :=
        congrArg (fun b => [b]) (toByte_setWidth b)
      rw [hbytes] at hsent
      exact ⟨r, c', by rw [smbusWriteByteData, hcall]; rfl, hsent⟩
  exact ⟨status, c', hrun, hdone.weaken fun h => ⟨h, rfl⟩⟩

variable (address command c) in
theorem writeWord_done (hk : k.Serves dev calm view) (hfuel : 0 < fuel) (w : UInt) :
    ∃ status c', writeWord k fuel address command w c = some (status, c') ∧
      FileDone dev calm view address (.write command (wordBytes w))
        (dev.format command = some .word) c (outcome status []) c' := by
  obtain ⟨status, c', hrun, hdone⟩ := selected_write address .word (wordBytes w) c
    (smbusWriteWordData k fuel command (w.setWidth 16)) hk hfuel
    fun c₁ => by
      obtain ⟨r, word, c', hcall, hsent⟩ := access_write hk hfuel command .wordData
        (w.setWidth 16) c₁
      rw [DataSize.bytes, wordBytes_setWidth] at hsent
      exact ⟨r, c', by rw [smbusWriteWordData, hcall]; rfl, hsent⟩
  exact ⟨status, c', hrun, hdone.weaken fun h => ⟨h, rfl⟩⟩

variable (address command c) in
theorem readByte_done (hk : k.Serves dev calm view) (hfuel : 0 < fuel) (junk : Word) :
    ∃ status c', readByte k fuel address command junk c = some (status, c') ∧
      FileDone dev calm view address (.read command) (dev.format command = some .byte) c
        (outcome status [BitVec.ofInt 8 status]) c' := by
  refine selected_read 1 Fx2lp.leInt hk hfuel (fun c₁ => ?_) ?_
    Format.noConfusion fun bytes hbytes => ⟨rfl, hbytes⟩
  · obtain ⟨r, word, c', hcall, hfetched⟩ := access_read hk hfuel command .byteData junk c₁
    have hvalue : ((0xFF &&& word).toNat : Int) = Fx2lp.leInt (DataSize.byteData.bytes word) := by
      rw [DataSize.bytes, leInt_byte, BitVec.toNat_and, BitVec.toNat_setWidth, Nat.and_comm]
      exact congrArg _ (Nat.and_two_pow_sub_one_eq_mod word.toNat 8)
    refine ⟨r, _, c', ?_, hfetched⟩
    rw [smbusReadByteData, hcall, ← hvalue]
    simp only [Option.bind_eq_bind, Option.bind_some]
    split <;> rfl
  · intro bytes hbytes
    obtain ⟨b, rfl⟩ := List.length_eq_one_iff.mp hbytes
    rw [leInt_byte]
    refine ⟨Int.natCast_nonneg _, ?_⟩
    rw [BitVec.ofInt_natCast, BitVec.ofNat_toNat, BitVec.setWidth_eq]

variable (address command c) in
theorem readWord_done (hk : k.Serves dev calm view) (hfuel : 0 < fuel) (junk : Word) :
    ∃ status c', readWord k fuel address command junk c = some (status, c') ∧
      FileDone dev calm view address (.read command) (dev.format command = some .word) c
        (outcome status (wordBytes (BitVec.ofInt 32 status))) c' := by
  refine selected_read 2 Fx2lp.leInt hk hfuel (fun c₁ => ?_) ?_
    Format.noConfusion fun bytes hbytes => ⟨rfl, hbytes⟩
  · obtain ⟨r, word, c', hcall, hfetched⟩ := access_read hk hfuel command .wordData junk c₁
    have hvalue : ((0xFFFF &&& word).toNat : Int) =
        Fx2lp.leInt (DataSize.wordData.bytes word) := by
      have hword := word.isLt
      rw [show (0xFFFF : Word) = BitVec.allOnes 16 from rfl, BitVec.allOnes_and, DataSize.bytes,
        wordBytes, leInt_word]
      congr 1
      rw [BitVec.toNat_setWidth, BitVec.toNat_setWidth, BitVec.toNat_setWidth,
        BitVec.toNat_ushiftRight, BitVec.toNat_setWidth, Nat.shiftRight_eq_div_pow]
      omega
    refine ⟨r, _, c', ?_, hfetched⟩
    rw [smbusReadWordData, hcall, ← hvalue]
    simp only [Option.bind_eq_bind, Option.bind_some]
    split <;> rfl
  · intro bytes hbytes
    obtain ⟨lo, hi, rfl⟩ := List.length_eq_two.mp hbytes
    refine ⟨?_, wordBytes_leInt lo hi⟩
    rw [leInt_word]
    exact Int.natCast_nonneg _

/-! ## Blocks -/

variable (address command c) in
/-- A block that is written is one message. -/
theorem writeBlock_done (hk : k.Serves dev calm view) (hfuel : 0 < fuel)
    (hlen : data.length < 256) :
    ∃ status c', writeBlock k.toAdapter fuel address command data (BitVec.ofNat 8 data.length) c =
        some (status, c') ∧
      FileDone dev calm view address (.write command data) (dev.format command = some .block) c
        (outcome status []) c' := by
  have hcount : (BitVec.ofNat 8 data.length).toNat = data.length := by
    rw [BitVec.toNat_ofNat, Nat.mod_eq_of_lt hlen]
  obtain ⟨hsent, hpec⟩ := hk.message c.file (((address.setWidth 8 : Byte) >>> 1).setWidth 16)
    (data.length + 2) (command :: BitVec.ofNat 8 data.length :: data)
  have hrun := onFile_of_not_interrupted (c := c) hfuel hsent.not_interrupted
  rw [wire_message, List.take_of_length_le (by simp)] at hsent
  generalize k.ioctl (.rdwr [⟨((address.setWidth 8 : Byte) >>> 1).setWidth 16, 0, data.length + 2,
    command :: BitVec.ofNat 8 data.length :: data⟩]) c.file = r at hsent hpec hrun
  have hcall : writeBlock k.toAdapter fuel address command data (BitVec.ofNat 8 data.length) c =
      some (if r.1.ret < 0 then -1 else 0, { c with file := r.2 }) := by
    rw [writeBlock, smbusWriteBlockDataRelax, hcount, List.take_length, hrun]
    rfl
  have hstatus : (if r.1.ret < 0 then (-1 : Int) else 0) < 0 ↔ r.1.ret < 0 := by
    split
    · exact iff_of_true (by decide) ‹_›
    · exact iff_of_false (Int.lt_irrefl 0) ‹_›
  have hdone : FileDone dev calm view address (.write command data)
      (dev.format command = some .block ∧ Format.block.Fits data) c (outcome r.1.ret [])
      { c with file := r.2 } :=
    fileDone_sent .block false (by rwa [coded, if_neg Bool.false_ne_true, List.append_nil]) hpec
  refine ⟨_, _, hcall, ?_⟩
  rw [outcome_congr hstatus]
  exact hdone.weaken fun h => ⟨h, hlen⟩

/-- What is received of a block of up to 64 bytes. -/
theorem received_block {k : ReceivingAdapter S} {file : S} {m : D}
    (hcmd : dev.format command = some .block) (hlen : (dev.read command m).1.length ≤ 64)
    (hbytes : k.received file = Mem.read (dev.replyStream command .block m) 0 receiveLen) :
    receivedCount k file = (dev.read command m).1.length ∧
      (receiveBuffer k file).read 1 (receivedCount k file) = (dev.read command m).1 := by
  obtain ⟨hlow, hhigh⟩ : 1 ≤ (dev.read command m).1.length ∧
    (dev.read command m).1.length ≤ 253 := dev.answers m hcmd
  have hread := (read_replyStream dev command .block m).1
  generalize (dev.read command m).1 = answer at *
  have hstored : stored k file =
      Mem.read (dev.replyStream command .block m) 0 receiveLen := by
    rw [stored, hbytes, List.take_of_length_le (Nat.le_of_eq (Mem.length_read _ _ _))]
  have hencode : Format.block.encode answer = BitVec.ofNat 8 answer.length :: answer := rfl
  rw [hencode, List.length_cons] at hread
  have hcount : receivedCount k file = answer.length := by
    have hfirst : dev.replyStream command .block m 0 = BitVec.ofNat 8 answer.length := by
      have h := congrArg (·[0]?) hread
      rw [Mem.getElem?_read _ (Nat.succ_pos _)] at h
      exact Option.some.inj h
    have hcell : receiveBuffer k file 0 = dev.replyStream command .block m 0 := by
      rw [receiveBuffer, hstored]
      rfl
    rw [receivedCount, hcell, hfirst, BitVec.toNat_ofNat]
    omega
  refine ⟨hcount, ?_⟩
  have hreceived : receivedData k file = Mem.read (dev.replyStream command .block m) 1 64 := by
    rw [receivedData, hstored, Mem.drop_read]
    rfl
  rw [hcount, read_receiveBuffer (by rw [hreceived, Mem.length_read]; exact hlen), hreceived,
    Mem.take_read, Nat.min_eq_left hlen]
  have hdrop := congrArg (List.drop 1) hread
  rwa [Mem.drop_read, Nat.add_sub_cancel, Nat.zero_add] at hdrop

variable (address command c) in
/-- A block that is read is two messages. -/
theorem readBlock_done (hk : k.Serves dev calm view) (hfuel : 0 < fuel) :
    ∃ status data c', readBlock k.toReceivingAdapter fuel address command (fun _ => 0) c =
        some ((status, data), c') ∧
      FileDone dev calm view address (.read command)
        (dev.format command = some .block ∧ (dev.read command (view.mem c.file)).1.length ≤ 64) c
        (outcome status (data.read 0 status.toNat)) c' := by
  obtain ⟨hfetched, hpec⟩ := hk.receive c.file (address.setWidth 8) command
  have hfile := xioctl_of_not_interrupted hfuel hfetched.not_interrupted
  have hrun := readBlock_of_xioctl (k := k.toReceivingAdapter) (fun _ => 0) hfile
  generalize k.ioctl (.rdwr (receiveMessages (address.setWidth 8) command)) c.file = r
    at hfetched hpec hrun
  by_cases hneg : r.1.ret < 0
  · rw [if_pos hneg] at hrun
    exact ⟨_, _, _, hrun, fileDone_fetched (f := .block) hfetched hpec
      And.left Format.noConfusion (fun _ => by decide)
      fun _ _ hpos => absurd hneg (Int.not_lt.mpr hpos)⟩
  · rw [if_neg hneg] at hrun
    refine ⟨_, _, _, hrun, fileDone_fetched (f := .block) hfetched hpec
      And.left Format.noConfusion (fun h => absurd h hneg) ?_⟩
    rintro ⟨hcmd, hlen⟩ hbytes -
    refine ⟨Int.natCast_nonneg _, ?_⟩
    obtain ⟨hcount, hdata⟩ := received_block hcmd hlen hbytes
    rw [hdata, hcount, Int.toNat_natCast, Mem.read_write]

/-! ## Transactions -/

/-- A transaction of a command in its format, whose block the driver can handle. -/
def Usable (dev : BusDevice D) (m : D) (t : Transaction) : Prop :=
  dev.format t.command = some t.format ∧
    match t with
    | .readBlock command => (dev.read command m).1.length ≤ 64
    | _ => True

variable (address c) in
/-- A transaction is a call of the device. -/
theorem transaction_done (hk : k.Serves dev calm view) (hfuel : 0 < fuel) (t : Transaction)
    (hlen : ∀ command data, t = .writeBlock command data → data.length < 256) :
    ∃ r c', transaction k fuel address c t = some (r, c') ∧
      FileDone dev calm view address t.op (Usable dev (view.mem c.file) t) c r c' := by
  cases t with
  | sendByte command =>
      obtain ⟨status, c', hrun, hdone⟩ := sendByte_done address command c hk hfuel
      exact ⟨_, c', by rw [transaction, hrun]; rfl, hdone.weaken And.left⟩
  | writeByte command b =>
      obtain ⟨status, c', hrun, hdone⟩ := writeByte_done address command c hk hfuel b
      exact ⟨_, c', by rw [transaction, hrun]; rfl, hdone.weaken And.left⟩
  | writeWord command w =>
      obtain ⟨status, c', hrun, hdone⟩ := writeWord_done address command c hk hfuel w
      exact ⟨_, c', by rw [transaction, hrun]; rfl, hdone.weaken And.left⟩
  | writeBlock command data =>
      obtain ⟨status, c', hrun, hdone⟩ := writeBlock_done address command c hk hfuel
        (hlen command data rfl)
      exact ⟨_, c', by rw [transaction, hrun]; rfl, hdone.weaken And.left⟩
  | readByte command =>
      obtain ⟨status, c', hrun, hdone⟩ := readByte_done address command c hk hfuel 0
      exact ⟨_, c', by rw [transaction, hrun]; rfl, hdone.weaken And.left⟩
  | readWord command =>
      obtain ⟨status, c', hrun, hdone⟩ := readWord_done address command c hk hfuel 0
      exact ⟨_, c', by rw [transaction, hrun]; rfl, hdone.weaken And.left⟩
  | readBlock command =>
      obtain ⟨status, data, c', hrun, hdone⟩ := readBlock_done address command c hk hfuel
      exact ⟨_, c', by rw [transaction, hrun]; rfl, hdone⟩

end

end I2cdev

end Smbusb
