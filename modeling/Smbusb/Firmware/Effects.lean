import Smbusb.Firmware.ReadRequests
import Smbusb.Logic.Frame

/-!
# What a request may change

Every request works on the bus, on the buffer of endpoint 0, and on variables that no other
request relies on.  What later requests do rely on are `pec_failed` and the cursors of a
sequence with its counter, and only some requests touch them: `SetsFlag`, `MovesCursors` and
`ResetsCount` name them.

`within_handle` is the frame rule of the firmware.  A preorder that permits what every request
does, and what the request at hand does beyond that, holds between the states before and after
the request.
-/

namespace Smbusb

open Logic Prog Fw Handler

/-- Nothing was done on the bus, or something was and the trace shows it. -/
def I2c.Went (b b' : I2c) : Prop := b' = b ∨ ∃ e ext, Extends b (e :: ext) b'

/-- The preorder permits what every request does. -/
structure Permits (R : Fx2 → Fx2 → Prop) : Prop where
  bus : ∀ (s : Fx2) {b : I2c}, s.toI2c.Went b → R s { s with toI2c := b }
  scratch : ∀ {s t : Fx2}, t.toI2c = s.toI2c → t.pecFailed = s.pecFailed → t.templen = s.templen →
    t.tempptr = s.tempptr → R s t

/-- The requests that touch `pec_failed`. -/
def SetsFlag (cmd : Byte) : Prop :=
  cmd = smbReadByte ∨ cmd = smbReadWord ∨ cmd = smbReadBlock ∨ cmd = smbGetClearPecFail

/-- The requests that touch the cursors. -/
def MovesCursors (cmd : Byte) : Prop :=
  cmd = smbReadBlock ∨ cmd = smbWriteBlock ∨ cmd = smbResetInterface

/-- The requests that set the tick counter themselves. -/
def ResetsCount (cmd : Byte) : Prop := cmd = smbReadBlock ∨ cmd = smbWriteBlock

/-! ## The I2C functions -/

section

variable (T : Target) (b : I2c)

theorem went_of_extends {b b' : I2c} {ext : List Event} (hne : ext ≠ []) (h : Extends b ext b') :
    b.Went b' := by
  obtain ⟨e, ext, rfl⟩ := List.exists_cons_of_ne_nil hne
  exact .inr ⟨e, ext, h⟩

theorem went_start : b.Went (i2cStart T b).2 := by
  have h : ∀ tries b, I2c.Went b (i2cStartTries T tries b).2 := by
    intro tries
    induction tries with
    | zero => exact fun b => .inl rfl
    | succ tries ih =>
        intro b
        rw [i2cStartTries]
        split
        · have hone : Extends b [.start true] (b.log (.start true)) := rfl
          rcases ih (b.log (.start true)) with h | ⟨e, ext, h⟩
          · rw [h]
            exact .inr ⟨_, _, hone⟩
          · exact .inr ⟨_, _, hone.trans h⟩
        · exact .inr ⟨.start false, [], rfl⟩
  exact h _ b

theorem went_stop : b.Went (i2cStop T b) := .inr ⟨.stop, [], i2cStop_extends T b⟩

theorem went_byteout (x : Byte) : b.Went (i2cByteout T x b).2 := by
  obtain ⟨a, -, h⟩ := i2cByteout_extends T x b
  exact .inr ⟨_, _, h⟩

/-- What is used stays used, whatever comes before and after it. -/
theorem went_of_quiet {b b₁ b₂ b₃ : I2c} {e : Event} (h₁ : Quiet b b₁) (h₂ : Extends b₁ [e] b₂)
    (h₃ : Quiet b₂ b₃) : b.Went b₃ := by
  obtain ⟨ext₁, hext₁, -⟩ := h₁
  obtain ⟨ext₃, hext₃, -⟩ := h₃
  refine went_of_extends ?_ ((hext₁.trans h₂).trans hext₃)
  simp

theorem went_byteinRest {b₀ : I2c} (hquiet : Quiet b₀ b) (isBeforeLast isLast : Bool) :
    b₀.Went (i2cByteinRest T isBeforeLast isLast b).2 := by
  have h1 : Quiet b₀ (if isLast then b.log .stop else b) := by
    split
    · exact hquiet.trans (quiet_log rfl)
    · exact hquiet
  generalize hb₁ : (if isLast then b.log .stop else b) = b₁ at h1
  have h2 : Quiet b₀ (if isBeforeLast then b₁.setLastrd else b₁) := by
    split
    · exact h1.trans (quiet_setLastrd b₁)
    · exact h1
  generalize hb₂ : (if isBeforeLast then b₁.setLastrd else b₁) = b₂ at h2
  have h3 : Quiet b₂.fetch (if isLast then b₂.fetch.await (T.stopShows b₂.fetch.trace)
      else b₂.fetch.awaitByte T).2 := by
    split
    · exact quiet_await _ _
    · exact quiet_awaitByte T _
  simp only [i2cByteinRest, hb₁, hb₂]
  generalize (if isLast then b₂.fetch.await (T.stopShows b₂.fetch.trace)
      else b₂.fetch.awaitByte T) = r at h3 ⊢
  obtain ⟨ok, b'⟩ := r
  have hfetch : Extends b₂ [.fetch b₂.i2dat] b₂.fetch := rfl
  cases ok with
  | true => exact went_of_quiet h2 hfetch h3
  | false => exact went_of_quiet h2 hfetch (h3.trans (quiet_stop T b'))

theorem went_bytein (isFirst isSingle isBeforeLast isLast : Bool) :
    b.Went (i2cBytein T isFirst isSingle isBeforeLast isLast b).2 := by
  have h1 : Quiet b (if isSingle then b.setLastrd else b) := by
    split
    · exact quiet_setLastrd b
    · exact Quiet.refl b
  generalize hb₁ : (if isSingle then b.setLastrd else b) = b₁ at h1
  have h2 : Quiet b (if isFirst then b₁.fetch.awaitByte T else (true, b₁)).2 := by
    split
    · exact (h1.trans (quiet_log rfl)).trans (quiet_awaitByte T _)
    · exact h1
  simp only [i2cBytein, hb₁]
  generalize (if isFirst then b₁.fetch.awaitByte T else (true, b₁)) = r at h2 ⊢
  obtain ⟨ok, b'⟩ := r
  cases ok with
  | true => exact went_byteinRest T b' h2 _ _
  | false => exact went_of_quiet h2 (i2cStop_extends T b') (Quiet.refl _)

end

/-! ## The primitives -/

section

variable {R : Fx2 → Fx2 → Prop} (hR : Permits R)

include hR

theorem Permits.start (T : Target) : Within R (i2c (i2cStart T)) :=
  within_lift fun s => hR.bus s (went_start T s.toI2c)

theorem Permits.byteout (T : Target) (x : Byte) : Within R (i2c (i2cByteout T x)) :=
  within_lift fun s => hR.bus s (went_byteout T s.toI2c x)

theorem Permits.bytein (T : Target) (first single bl last : Bool) :
    Within R (i2c (i2cBytein T first single bl last)) :=
  within_lift fun s => hR.bus s (went_bytein T s.toI2c first single bl last)

theorem Permits.stop (T : Target) : Within R (i2cDo (i2cStop T)) :=
  within_lift fun s => hR.bus s (went_stop T s.toI2c)

theorem Permits.restart : Within R (i2cDo i2cRestart) :=
  within_lift fun s => hR.bus s (.inr ⟨.restart, [], rfl⟩)

theorem Permits.ep0buf (i : Nat) : Within R (Fw.ep0buf i) :=
  within_lift fun _ => hR.scratch rfl rfl rfl rfl

theorem Permits.setEp0buf (i : Nat) (b : Byte) : Within R (Fw.setEp0buf i b) :=
  within_modify fun _ => hR.scratch rfl rfl rfl rfl

theorem Permits.temp (i : Nat) : Within R (Fw.temp i) :=
  within_lift fun _ => hR.scratch rfl rfl rfl rfl

theorem Permits.setTemp (i : Nat) (b : Byte) : Within R (Fw.setTemp i b) :=
  within_modify fun _ => hR.scratch rfl rfl rfl rfl

theorem Permits.setEp0bcl (n : Byte) : Within R (Fw.setEp0bcl n) :=
  within_modify fun _ => hR.scratch rfl rfl rfl rfl

end

/-! ## The parts of a request -/

section

variable {R : Fx2 → Fx2 → Prop} [IsPreorder Fx2 R] (hR : Permits R) (T : Target) (fuel : Nat)
  (smbAddr smbCmd : Word)

include hR

theorem Permits.stopFail : Within R (Handler.stopFail T) :=
  within_bind (hR.stop T) fun _ => within_pure _

theorem Permits.send (x : Byte) (l : Label) : Within R (orGoto (i2c (i2cByteout T x)) l) :=
  within_orGoto (hR.byteout T x) l

theorem Permits.address (noStart noAck : Label) :
    Within R (Smbusb.address T smbAddr smbCmd noStart noAck) :=
  within_bind (within_orGoto (hR.start T) noStart) fun _ =>
    within_bind (hR.send T _ noAck) fun _ => within_bind (hR.send T _ noAck) fun _ =>
      within_bind hR.restart fun _ => hR.send T _ noAck

theorem Permits.sendBlock {count : Fx2 → Byte} {more : Byte → Fx2 → Bool} {cell : Nat → Fw Byte}
    {done : Fx2 → Fx2} (hcell : ∀ i, Within R (cell i)) (hdone : ∀ s, R s (done s)) :
    Within R (Handler.sendBlock T fuel smbAddr smbCmd count more cell done) := by
  refine within_bind (within_orGoto (hR.start T) _) fun _ => within_bind (hR.send T _ _) fun _ =>
    within_bind (hR.send T _ _) fun _ => within_bind within_get fun _ =>
    within_bind (hR.send T _ _) fun _ => within_bind within_get fun _ =>
    within_bind (within_whileLoop ?_ _ _) ?_
  · rintro ⟨i, pec⟩
    exact within_bind (hcell _) fun _ => within_bind (hR.send T _ _) fun _ =>
      within_bind within_get fun _ => within_pure _
  · rintro ⟨i, pec⟩
    have hend : Within R ((do i2cDo (i2cStop T); modify done; return true) : Fw Bool) :=
      within_bind (hR.stop T) fun _ => within_bind (within_modify hdone) fun _ => within_pure _
    refine within_bind within_get fun s => ?_
    dsimp only
    split
    · exact within_bind (hR.send T _ _) fun _ => hend
    · exact hend

theorem Permits.readTurn (j : Byte) (v : Byte × Byte) : Within R (Handler.readTurn T j v) := by
  obtain ⟨i, rs⟩ := v
  refine within_bind (hR.bytein T _ _ _ _) fun b => within_bind within_get fun s => ?_
  have hstore : Within R (Fw.setEp0buf i.toNat b) := hR.setEp0buf _ _
  have hpec : ∀ f : Fx2 → Byte × Byte,
      Within R (modify fun s => { s with mrqPec := (f s).1, rcvPec := (f s).2 } : Fw Unit) :=
    fun f => within_modify fun _ => hR.scratch rfl rfl rfl rfl
  dsimp only
  split
  · split
    · exact within_bind (hpec fun s => (s.mrqPec, b)) fun _ => within_pure _
    · exact within_bind hstore fun _ =>
        within_bind (hpec fun s => (pecCrc s.mrqPec b, s.rcvPec)) fun _ => within_pure _
  · exact within_bind hstore fun _ => within_pure _

theorem Permits.readBlockTurn (v : ReadVars) : Within R (Handler.readBlockTurn T v) := by
  refine within_bind (hR.bytein T _ _ _ _) fun b => ?_
  refine within_ite (fun _ => within_goto _) fun _ => within_bind within_get fun s => ?_
  refine within_ite (fun _ => within_ite (fun _ => ?_) fun _ => ?_) fun _ => within_pure _
  · exact within_bind (hR.setEp0buf _ _) fun _ => within_pure _
  · exact within_bind (hR.setTemp _ _) fun _ => within_pure _

/-! ## Requests that touch the flag or the cursors -/

variable (hflag : ∀ s b, R s { s with pecFailed := b })
  (hcursors : ∀ s l p, R s { s with templen := l, tempptr := p })
  (hcount : ∀ s c, R s { s with count := c })

omit hR in
include hcursors in
theorem within_expireSeq : Within R Handler.expireSeq := by
  refine within_modify fun s => ?_
  rw [Fx2.expire]
  split
  · exact hcursors s 0 0
  · exact refl_of R s

include hflag in
theorem Permits.readByte : Within R (Handler.readByte T smbAddr smbCmd) := by
  rw [Handler.readByte]
  refine within_labels ?_ fun _ => hR.stopFail T
  rw [address_bind]
  refine within_bind (hR.address T _ _ _ _) fun _ => within_bind within_get fun s => ?_
  have hreply : ∀ b,
      Within R ((do Fw.setEp0buf 0 b; Fw.setEp0bcl 1; return true) : Fw Bool) := fun b =>
    within_bind (hR.setEp0buf _ _) fun _ => within_bind (hR.setEp0bcl _) fun _ => within_pure _
  dsimp only
  refine within_ite (fun _ => ?_) fun _ => within_bind (hR.bytein T _ _ _ _) hreply
  refine within_bind (hR.bytein T _ _ _ _) fun b => within_bind (hR.bytein T _ _ _ _) fun _ => ?_
  refine within_ite (fun _ => ?_) fun _ => within_bind (within_pure b) hreply
  exact within_bind (hR.setEp0bcl _) fun _ => within_bind (within_modify fun s => hflag s true)
    fun _ => within_bind (within_goto _) hreply

include hflag in
theorem Permits.readWord : Within R (Handler.readWord T smbAddr smbCmd) := by
  rw [Handler.readWord]
  refine within_labels ?_ fun _ => hR.stopFail T
  rw [address_bind]
  refine within_bind (hR.address T _ _ _ _) fun _ => within_bind within_get fun s => ?_
  have hreply : Within R ((do Fw.setEp0bcl 2; return true) : Fw Bool) :=
    within_bind (hR.setEp0bcl _) fun _ => within_pure _
  have hbyte : ∀ i bl last, Within R (i2c (i2cBytein T i false bl last)) := fun i bl last =>
    hR.bytein T i false bl last
  dsimp only
  refine within_ite (fun _ => ?_) fun _ => ?_
  · refine within_bind (hbyte _ _ _) fun _ => within_bind (hR.setEp0buf _ _) fun _ =>
      within_bind (hbyte _ _ _) fun _ => within_bind (hR.setEp0buf _ _) fun _ =>
      within_bind (hbyte _ _ _) fun _ => within_ite (fun _ => ?_) fun _ => hreply
    exact within_bind (hR.setEp0bcl _) fun _ => within_bind (within_modify fun s => hflag s true)
      fun _ => within_bind (within_goto _) fun _ => hreply
  · exact within_bind (hbyte _ _ _) fun _ => within_bind (hR.setEp0buf _ _) fun _ =>
      within_bind (hbyte _ _ _) fun _ => within_bind (hR.setEp0buf _ _) fun _ => hreply

include hflag in
theorem Permits.getClearPecFail : Within R Handler.getClearPecFail := by
  refine within_bind within_get fun s => ?_
  have hreply : Within R ((do Fw.setEp0bcl 1; return true) : Fw Bool) :=
    within_bind (hR.setEp0bcl _) fun _ => within_pure _
  dsimp only
  refine within_ite (fun _ => ?_) fun _ => within_bind (hR.setEp0buf _ _) fun _ => hreply
  exact within_bind (hR.setEp0buf _ _) fun _ =>
    within_bind (within_modify fun s => hflag s false) fun _ => hreply

include hcursors in
theorem Permits.resetInterface : Within R (Handler.resetInterface T) := by
  refine within_bind (within_modify fun s => ?_) fun _ =>
    within_bind (hR.stop T) fun _ => within_pure _
  have hpecs : R s { s with mrqPec := 0, rcvPec := 0 } := hR.scratch rfl rfl rfl rfl
  exact trans_of R hpecs (hcursors _ 0 0)

include hcursors in
theorem Permits.readBlockNext : Within R (Handler.readBlockNext fuel) := by
  refine within_bind within_get fun s => within_bind (within_whileLoop ?_ _ _) ?_
  · rintro ⟨i, j⟩
    exact within_bind (hR.temp _) fun _ => within_bind (hR.setEp0buf _ _) fun _ => within_pure _
  · rintro ⟨-, j⟩
    refine within_bind (within_modify fun s => hcursors s s.templen _) fun _ =>
      within_bind (hR.setEp0bcl _) fun _ => within_bind (within_modify fun s => ?_) fun _ =>
      within_pure _
    split
    · exact hcursors s 0 0
    · exact refl_of R s

include hflag hcursors hcount in
theorem Permits.readBlockData : Within R (Handler.readBlockData T fuel smbAddr smbCmd) := by
  refine within_bind within_get fun s => within_bind (within_whileLoop (hR.readBlockTurn T) _ _)
    fun v => within_bind (within_modify fun s => ?_) fun _ => within_bind within_get fun s => ?_
  · split
    · exact trans_of R (hcursors s (v.blocklen.setWidth 16 - 65) 0) (hcount _ 0)
    · exact refl_of R s
  · refine within_ite (fun _ => ?_) fun _ => ?_
    · exact within_bind (within_modify fun s => hflag s true) fun _ => within_goto _
    · exact within_bind (hR.setEp0bcl _) fun _ => within_pure _

include hflag hcursors hcount in
theorem Permits.readBlock : Within R (Handler.readBlock T fuel smbAddr smbCmd) := by
  refine within_bind (within_expireSeq hcursors) fun _ => within_bind within_get fun s =>
    within_ite (fun _ => hR.readBlockNext fuel hcursors) fun _ => within_labels ?_ fun l => ?_
  · exact within_bind (hR.address T _ _ _ _) fun _ =>
      hR.readBlockData T fuel _ _ hflag hcursors hcount
  · have hend : Within R ((do Fw.setEp0bcl 0; return false) : Fw Bool) :=
      within_bind (hR.setEp0bcl _) fun _ => within_pure _
    exact within_ite (fun _ => within_bind (hR.stop T) fun _ => hend) fun _ => hend

include hcursors hcount in
theorem Permits.writeBlock : Within R (Handler.writeBlock T fuel smbAddr smbCmd) := by
  refine within_bind (within_expireSeq hcursors) fun _ => within_bind within_get fun s =>
    within_ite (fun _ => ?_) fun _ => within_ite (fun _ => ?_) fun _ => ?_
  · refine within_bind (hR.ep0buf _) fun len =>
      within_bind (within_modify fun s => hcursors s _ 0) fun _ =>
      within_bind (within_whileLoop (fun _ => ?_) _ _) fun _ =>
      within_bind (within_modify fun s => hcount s 0) fun _ => within_pure _
    exact within_bind within_get fun _ => within_bind (hR.ep0buf _) fun _ =>
      within_bind (hR.setTemp _ _) fun _ => within_modify fun s => hcursors s s.templen _
  · refine within_bind (within_bind within_get fun s => within_ite (fun _ => ?_) fun _ =>
      within_pure _) fun _ => within_bind within_get fun s => within_ite (fun _ => ?_) fun _ =>
      within_pure _
    · refine within_bind (within_whileLoop ?_ _ _) ?_
      · rintro ⟨i, j⟩
        exact within_bind (hR.ep0buf _) fun _ => within_bind (hR.setTemp _ _) fun _ => within_pure _
      · rintro ⟨i, j⟩
        exact within_modify fun s => hcursors s s.templen _
    · exact within_labels (hR.sendBlock T fuel _ _ hR.temp fun s => hcursors s 0 0)
        fun _ => hR.stopFail T
  · exact within_labels (hR.sendBlock T fuel _ _ (fun i => hR.ep0buf (1 + i)) fun s => refl_of R s)
      fun _ => hR.stopFail T

end

/-! ## Every request -/

/-- The frame rule of the firmware. -/
theorem within_handle {R : Fx2 → Fx2 → Prop} [IsPreorder Fx2 R] (hR : Permits R) (T : Target)
    (fuel : Nat) {cmd : Byte} (setup : Setup)
    (hflag : SetsFlag cmd → ∀ s b, R s { s with pecFailed := b })
    (hcursors : MovesCursors cmd → ∀ s l p, R s { s with templen := l, tempptr := p })
    (hcount : ResetsCount cmd → ∀ s c, R s { s with count := c }) :
    Within R (handleVendorcommand T fuel cmd setup) := by
  rw [handleVendorcommand]
  refine within_ite (fun _ => ?_) fun _ => within_ite (fun _ => ?_) fun _ =>
    within_ite (fun _ => ?_) fun _ => within_ite (fun _ => ?_) fun _ =>
    within_ite (fun h => hR.readByte T _ _ (hflag (.inl h))) fun _ =>
    within_ite (fun _ => ?_) fun _ =>
    within_ite (fun h => hR.readWord T _ _ (hflag (.inr (.inl h)))) fun _ =>
    within_ite (fun _ => ?_) fun _ =>
    within_ite (fun h => hR.readBlock T fuel _ _ (hflag (.inr (.inr (.inl h))))
      (hcursors (.inl h)) (hcount (.inl h))) fun _ =>
    within_ite (fun h => hR.writeBlock T fuel _ _ (hcursors (.inr (.inl h)))
      (hcount (.inr h))) fun _ =>
    within_ite (fun _ => ?_) fun _ => within_ite (fun _ => ?_) fun _ =>
    within_ite (fun h => hR.getClearPecFail (hflag (.inr (.inr (.inr h))))) fun _ =>
    within_ite (fun _ => ?_) fun _ => within_ite (fun _ => ?_) fun _ =>
    within_ite (fun _ => ?_) fun _ =>
    within_ite (fun h => hR.resetInterface T (hcursors (.inr (.inr h)))) fun _ =>
    within_ite (fun _ => ?_) fun _ => within_ite (fun _ => ?_) fun _ =>
    within_ite (fun _ => ?_) fun _ => within_pure _
  all_goals
    simp only [enablePec, interfaceId, firmwareVersion, sendByte, writeByte, writeWord,
      Handler.write, writeConditions, writeBytes, writeFinish, Handler.read, dumpTemp, dumpCount,
      getMrqPecs, testAddressAck, testCommandAck, testCommandWrite, countAck]
    -- one rule for each construct and each primitive
    repeat' with_reducible first
      | exact within_pure _
      | exact within_get
      | exact within_goto _
      | exact hR.start T
      | exact hR.restart
      | exact hR.stop T
      | exact hR.byteout T _
      | exact hR.ep0buf _
      | exact hR.setEp0buf _ _
      | exact hR.temp _
      | exact hR.setEp0bcl _
      | exact hR.stopFail T
      | exact hR.readTurn T _ _
      | refine within_bind ?_ fun _ => ?_
      | refine within_orGoto ?_ _
      | refine within_labels ?_ fun _ => ?_
      | refine within_ite (fun _ => ?_) fun _ => ?_
      | refine within_whileLoop (fun _ => ?_) _ _
      | refine within_modify fun _ => ?_
  -- what is left are assignments to variables that every request may use
  all_goals first
    | exact hR.scratch rfl rfl rfl rfl
    | split <;> exact hR.scratch rfl rfl rfl rfl

end Smbusb
