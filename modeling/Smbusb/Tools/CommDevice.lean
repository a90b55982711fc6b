import Smbusb.Host.ByHand
import Smbusb.Host.DeviceRuns
import Smbusb.Tools.CommWrite

/-!
# smbusb_comm and a device

What a command line of `smbusb_comm` does to a device, through the FX2LP driver, USB, the firmware
and the bus.

*What is asked.*  `Asks` says of the options what they ask of the device, and which transaction that
is.  The data of a write are hex digits.  Two bytes go as a word, whose low byte is sent first, so
the device gets them the other way round.

*What is done.*  A run opens the device, sets the PEC, makes this one call, and exits with its
status (`main_asks`).  So the device is read or written once, or at most once when the call fails,
and the exit code says which (`comm_transacts`).  The exit code behind `--null-write` says nothing.
What a read prints is left out.
-/

namespace Smbusb

open Logic Prog Fx2lp

/-! ## Calls -/

/-- The call of the library for a transaction. -/
def Transaction.call (address : UInt) : Transaction → CommCall
  | sendByte command => .sendByte address command
  | writeByte command data => .writeByte address command data
  | writeWord command data => .writeWord address command data
  | writeBlock command data => .writeBlock address command data
  | readByte command => .readByte address command
  | readWord command => .readWord address command
  | readBlock command => .readBlock address command

/-- A call, and its status, unless it never ends.  The device was opened before. -/
def CommCall.run {S : Type} (d : Device S) (opened : Int) (s : S) : CommCall → Option Int × S
  | openDevice _ => (some opened, s)
  | enablePec state => (some 0, Fx2lp.enablePec d state s)
  | sendByte address command => (Fx2lp.sendByte d address command s).map some id
  | writeByte address command data => (Fx2lp.writeByte d address command data s).map some id
  | writeWord address command data => (Fx2lp.writeWord d address command data s).map some id
  | writeBlock address command data =>
      (Fx2lp.writeBlock d address command data (BitVec.ofNat 8 data.length) s).map some id
  | readByte address command => (Fx2lp.readByte d address command s).map some id
  | readWord address command => (Fx2lp.readWord d address command s).map some id
  | readBlock address command =>
      (Fx2lp.readBlock d loopFuel address command (fun _ => 0) s).map (Option.map Prod.fst) id

/-- The calls of a run, each with what becomes of its transfers, and the status of the last one. -/
def commCalls (T : Target) (ways : Nat → Nat → Delivery) (opened : Int) (s : Fx2)
    (calls : List CommCall) : Option Int × Fx2 :=
  calls.zipIdx.foldl (fun r c =>
    let (status, l) := c.1.run (usb T (ways c.2)) opened ⟨r.2, 0⟩
    (status, l.fx2)) (none, s)

/-- The statuses that the tool gets. -/
def commAnswers (T : Target) (ways : Nat → Nat → Delivery) (opened : Int) (s : Fx2) :
    CommAnswers := fun calls => (commCalls T ways opened s calls).1.getD 0

namespace Comm

/-! ## What a command line asks for -/

/-- The transaction that writes some bytes. -/
def writes (forceBlockWrite : Bool) (command : Byte) (data : List Byte) : Transaction :=
  if 2 < data.length ∨ forceBlockWrite then .writeBlock command data
  else if data.length = 1 then .writeByte command (data.getD 0 0)
  else .writeWord command ((data.getD 0 0 ++ data.getD 1 0).setWidth 32)

/-- The transaction that reads so many bytes. -/
def reads (opReadLen : Int) (command : Byte) : Transaction :=
  if opReadLen = 1 then .readByte command
  else if opReadLen = 2 then .readWord command
  else .readBlock command

/-- What the device gets of these bytes. -/
def sentBytes (forceBlockWrite : Bool) (data : List Byte) : List Byte :=
  if data.length = 2 ∧ forceBlockWrite = false then data.reverse else data

/-- The argument of `--write`: digits, with or without `0x`, which fit into the arrays. -/
structure FittingDigits (v : CommVars) (pre digits : List Char) : Prop where
  block : v.block = pre ++ digits
  pre : pre = [] ∨ (pre = ['0', 'x'] ∨ pre = ['0', 'X']) ∧ digits.length < strncpyLen
  hex : AllHex digits
  even : digits.length % 2 = 0
  pos : 2 ≤ digits.length
  max : digits.length ≤ 510

/-- What the options ask of the device, and the transaction they stand for. -/
inductive Asks (v : CommVars) : BusOp → Transaction → Prop
  | write {pre digits : List Char} : v.op = .write → FittingDigits v pre digits →
      Asks v (.write (BitVec.ofInt 8 v.opCommand) (sentBytes v.forceBlockWrite (hexBytes digits)))
        (writes v.forceBlockWrite (BitVec.ofInt 8 v.opCommand) (hexBytes digits))
  | read : v.op = .read → v.opReadLen ≠ 0 ∨ v.block ≠ [] →
      Asks v (.read (BitVec.ofInt 8 v.opCommand))
        (reads v.opReadLen (BitVec.ofInt 8 v.opCommand))
  /-- The check for a length or for data is made here, too. -/
  | null : v.op = .null → v.opReadLen ≠ 0 ∨ v.block ≠ [] →
      Asks v (.write (BitVec.ofInt 8 v.opCommand) []) (.sendByte (BitVec.ofInt 8 v.opCommand))

/-- A command line that asks for a transaction. -/
structure Requests (junk : CommJunk) (cmd : CommandLine CommOption) (v : CommVars)
    (op : BusOp) (t : Transaction) : Prop where
  args : cmd.argc ≠ 1
  options : ∃ s, options cmd.opts (.init junk) .init = .ok v s
  fits : ArgumentsFit cmd.opts
  address : v.opAddress ≠ -1
  command : v.opCommand ≠ -1
  asks : Asks v op t

/-- How a run ends.  The status of a `SendByte` is not looked at. -/
def commEnd (t : Transaction) (status : Int) (s : CommState) :
    EStateM.Result (Exit Int) CommState Unit :=
  match t with
  | .sendByte _ => .ok () s
  | _ => .error (.jump (if 0 ≤ status then 0 else status)) s

/-! ## Bytes -/

/-- Digits that fit are decoded. -/
theorem hexDecode_eq {digits : List Char} (hhex : AllHex digits) (heven : digits.length % 2 = 0) :
    hexDecode (digits.map tolower) = hexBytes digits := by
  have hlen : (hexDecode (digits.map tolower)).length = digits.length / 2 := by
    rw [length_hexDecode, List.length_map]
    omega
  rw [← take_hexDecode hhex, ← hlen, List.take_length]

theorem toNat_word (a b : Byte) :
    ((a ++ b).setWidth 32 : UInt).toNat = a.toNat * 2 ^ 8 + b.toNat := by
  have ha := a.isLt
  have hb := b.isLt
  rw [BitVec.toNat_setWidth, BitVec.toNat_append, ← Nat.shiftLeft_add_eq_or_of_lt hb,
    Nat.shiftLeft_eq]
  omega

/-- The bytes are swapped. -/
theorem swapped_word (a b : Byte) :
    let j : UInt := (b ++ a).setWidth 32
    (j >>> 8 ||| j <<< 8) &&& 0xFFFF = ((a ++ b).setWidth 32 : UInt) := by
  intro j
  have ha := a.isLt
  have hb := b.isLt
  have hj : j.toNat = b.toNat * 2 ^ 8 + a.toNat := toNat_word b a
  have hhigh : j.toNat >>> 8 % 2 ^ 16 = b.toNat := by
    rw [hj, Nat.shiftRight_eq_div_pow]
    omega
  have hlow : j.toNat <<< 8 % 2 ^ 32 % 2 ^ 16 = a.toNat <<< 8 := by
    rw [hj, Nat.shiftLeft_eq, Nat.shiftLeft_eq]
    omega
  apply BitVec.eq_of_toNat_eq
  rw [toNat_word, BitVec.toNat_and, BitVec.toNat_or, BitVec.toNat_ushiftRight,
    BitVec.toNat_shiftLeft]
  change _ &&& (2 ^ 16 - 1) = _
  rw [Nat.and_two_pow_sub_one_eq_mod, Nat.or_mod_two_pow, hhigh, hlow, Nat.or_comm,
    ← Nat.shiftLeft_add_eq_or_of_lt hb, Nat.shiftLeft_eq]

/-- They are sent the other way round. -/
theorem wordBytes_word (a b : Byte) : wordBytes ((a ++ b).setWidth 32) = [b, a] := by
  have ha := a.isLt
  have hb := b.isLt
  rw [wordBytes]
  congr 1
  · apply BitVec.eq_of_toNat_eq
    rw [BitVec.toNat_setWidth, toNat_word]
    omega
  · congr 1
    apply BitVec.eq_of_toNat_eq
    rw [BitVec.toNat_setWidth, BitVec.toNat_ushiftRight, toNat_word, Nat.shiftRight_eq_div_pow]
    omega

/-! ## Runs -/

section

variable {answers : CommAnswers} {junk : CommJunk} {v : CommVars} {s : CommState}
  {digits : List Char}

/-- A run that is known. -/
theorem run_of_wp {m : Comm Unit} {r : EStateM.Result (Exit Int) CommState Unit}
    (h : wp m (fun a s' => .ok a s' = r) (fun code s' => .error (.jump code) s' = r) s) :
    m s = r := by
  unfold wp at h
  cases hrun : m s with
  | ok a s' =>
      rw [hrun] at h
      exact h
  | error e s' =>
      rw [hrun] at h
      cases e with
      | jump code => exact h
      | hang => exact h.elim

/-- The exit code behind a write. -/
theorem commEnd_writes (forceBlockWrite : Bool) (command : Byte) (data : List Byte) (status : Int)
    (s : CommState) : commEnd (writes forceBlockWrite command data) status s =
      .error (.jump (if 0 ≤ status then 0 else status)) s := by
  rw [writes]
  split
  · rfl
  · split
    · rfl
    · rfl

/-- The exit code behind a read. -/
theorem commEnd_reads (opReadLen : Int) (command : Byte) (status : Int) (s : CommState) :
    commEnd (reads opReadLen command) status s =
      .error (.jump (if 0 ≤ status then 0 else status)) s := by
  rw [reads]
  split
  · rfl
  · split
    · rfl
    · rfl

section

variable {pre : List Char} {Q : Unit → CommState → Prop} {E : Int → CommState → Prop} {status : Int}

variable (answers v s) in
/-- Behind the call of a transaction, the tool exits with its status. -/
def ExitsWith (t : Transaction) (E : Int → CommState → Prop) : Prop :=
  ∀ calls, calls = s.sent ++ [t.call (BitVec.ofInt 32 v.opAddress)] →
    E (if 0 ≤ answers calls then 0 else answers calls) ⟨calls, s.oob⟩

theorem wp_finish_call {t : Transaction} (hend : ExitsWith answers v s t E) :
    wp (do finish (← call answers (t.call (BitVec.ofInt 32 v.opAddress))) : Comm Unit) Q E s := by
  have hcode := hend _ rfl
  simp only [finish, exit, call, wp_bind, wp_modify, wp_get, wp_pure, wp_ite, wp_goto]
  split
  · next hok => rwa [if_pos hok] at hcode
  · next hfails => rwa [if_neg hfails] at hcode

/-- What is sent for digits. -/
theorem wp_sendHex_writes (h : FittingDigits v pre digits)
    (hend : ExitsWith answers v s
      (writes v.forceBlockWrite (BitVec.ofInt 8 v.opCommand) (hexBytes digits)) E) :
    wp (sendHex answers v status digits) Q E s := by
  rw [sendHex, wp_bind]
  refine wp_lowerBlock (fun _ => ?_) fun hno => absurd h.hex hno
  have hpos := h.pos
  have hmax := h.max
  have hlen := length_hexBytes digits
  have hbuf : 0 < (hexBytes digits).length := by omega
  have hinside : (s.oob || decide (bufSize ≤ (hexBytes digits).length - 1)) = s.oob := by
    have hsize : bufSize = 256 := rfl
    rw [decide_eq_false (by omega), Bool.or_false]
  have hsends : ∀ t : Transaction, writes v.forceBlockWrite (BitVec.ofInt 8 v.opCommand)
      (hexBytes digits) = t →
      wp (do finish (← call answers (t.call (BitVec.ofInt 32 v.opAddress))) : Comm Unit) Q E s := by
    rintro t rfl
    exact wp_finish_call hend
  simp only [hexDecode_eq h.hex h.even, List.length_map, hbuf, if_true, ← hlen]
  rw [wp_bind, touch, wp_modify, hinside]
  split
  · next hlong =>
    have hbyte : (hexBytes digits).length % 256 = (hexBytes digits).length :=
      Nat.mod_eq_of_lt (by omega)
    rw [hbyte, List.take_length]
    exact hsends (.writeBlock _ _) (by rw [writes, if_pos hlong])
  · next hshort =>
    split
    · next hone => exact hsends (.writeByte _ _) (by rw [writes, if_neg hshort, if_pos hone])
    · next hmore =>
      have htwo : (hexBytes digits).length = 2 := by omega
      rw [if_pos htwo, swapped_word]
      exact hsends (.writeWord _ _) (by rw [writes, if_neg hshort, if_neg hmore])

/-- The prefix is taken off before. -/
theorem wp_write_writes (h : FittingDigits v pre digits)
    (hend : ExitsWith answers v s
      (writes v.forceBlockWrite (BitVec.ofInt 8 v.opCommand) (hexBytes digits)) E) :
    wp (write answers junk v status) Q E s := by
  have hlen : v.block.length = pre.length + digits.length := by
    rw [h.block, List.length_append]
  have heven := h.even
  have hpos := h.pos
  rw [write, if_pos (by omega)]
  rcases h.pre with rfl | ⟨hpre, hshort⟩
  · rw [List.length_nil, Nat.zero_add] at hlen
    rw [if_neg (by omega), wp_bind, h.block, List.nil_append, stripPrefix_digits _ h.hex, wp_pure]
    exact wp_sendHex_writes h hend
  · obtain ⟨x, hx, rfl⟩ : ∃ x, (x = 'x' ∨ x = 'X') ∧ pre = ['0', x] := by
      rcases hpre with hpre | hpre
      · exact ⟨_, .inl rfl, hpre⟩
      · exact ⟨_, .inr rfl, hpre⟩
    have htwo : ['0', x].length = 2 := rfl
    have hstripped : stripped junk.block2 digits = digits := if_pos hshort
    have hroom : decide (blockSize ≤ digits.length) = false :=
      decide_eq_false (Nat.not_le.mpr (Nat.lt_of_le_of_lt h.max (by decide)))
    rw [if_neg (by omega), wp_bind, h.block, List.cons_append, List.cons_append, List.nil_append]
    refine wp_stripPrefix junk.block2 hx h.hex ?_
    rw [hstripped, hroom, Bool.or_false]
    exact wp_sendHex_writes h hend

/-- What is sent for a length. -/
theorem wp_read_reads
    (hend : ExitsWith answers v s (reads v.opReadLen (BitVec.ofInt 8 v.opCommand)) E) :
    wp (read answers v) Q E s := by
  have hsends : ∀ t : Transaction, reads v.opReadLen (BitVec.ofInt 8 v.opCommand) = t →
      wp (do finish (← call answers (t.call (BitVec.ofInt 32 v.opAddress))) : Comm Unit) Q E s := by
    rintro t rfl
    exact wp_finish_call hend
  rw [read]
  split
  · next hone => exact hsends (.readByte _) (if_pos hone)
  · next hmore =>
    split
    · next htwo => exact hsends (.readWord _) (by rw [reads, if_neg hmore, if_pos htwo])
    · next hother => exact hsends (.readBlock _) (by rw [reads, if_neg hmore, if_neg hother])

end

/-- A run makes the call that is asked for, and ends with its status. -/
theorem main_asks {cmd : CommandLine CommOption} {op : BusOp} {t : Transaction}
    (h : Requests junk cmd v op t) (hopens : 0 ≤ answers [.openDevice v.device]) :
    let calls := [.openDevice v.device, .enablePec (if v.noPec then 0 else 1),
      t.call (BitVec.ofInt 32 v.opAddress)]
    main answers junk cmd .init = commEnd t (answers calls) ⟨calls, false⟩ := by
  intro calls
  obtain ⟨s, hoptions⟩ := h.options
  obtain ⟨hsent, hoob⟩ := options_state hoptions
  have hinside : s.oob = false := hoob.mpr ⟨rfl, h.fits⟩
  have hempty : s.sent = [] := hsent
  refine run_of_wp ?_
  rw [main, if_neg h.args, wp_bind, wp_of_run hoptions]
  simp only [run, exit, call, wp_bind, wp_modify, wp_get, wp_pure, wp_ite, wp_goto, hempty,
    List.nil_append, List.cons_append, if_neg (Int.not_lt.mpr hopens), h.address, h.command,
    or_self, if_false]
  cases h.asks with
  | @write pre digits hop hdigits =>
      have hne : ¬ (v.opReadLen = 0 ∧ v.block = []) := by
        rintro ⟨-, hnil⟩
        have hlen := congrArg List.length (hdigits.block.symm.trans hnil)
        rw [List.length_append, List.length_nil] at hlen
        have hpos := hdigits.pos
        omega
      rw [if_neg hne, hop]
      refine wp_write_writes hdigits fun calls' hcalls => ?_
      obtain rfl : calls' = calls := hcalls
      rw [hinside, commEnd_writes]
  | read hop hgiven =>
      rw [if_neg (not_and_or.mpr hgiven), hop]
      refine wp_read_reads fun calls' hcalls => ?_
      obtain rfl : calls' = calls := hcalls
      rw [hinside, commEnd_reads]
  | null hop hgiven =>
      rw [if_neg (not_and_or.mpr hgiven), hop]
      simp only [wp_bind, wp_modify, wp_get, wp_pure, hinside]
      rfl

/-! ## The device -/

/-- The transaction is what is asked for. -/
theorem op_asks {op : BusOp} {t : Transaction} (h : Asks v op t) :
    t.op = op ∧ t.command = BitVec.ofInt 8 v.opCommand := by
  cases h with
  | null hop hgiven => exact ⟨rfl, rfl⟩
  | read hop hgiven =>
      rw [reads]
      split
      · exact ⟨rfl, rfl⟩
      · split
        · exact ⟨rfl, rfl⟩
        · exact ⟨rfl, rfl⟩
  | @write pre digits hop hdigits =>
      have hlen := length_hexBytes digits
      have hpos := hdigits.pos
      have hne : 1 ≤ (hexBytes digits).length := by omega
      generalize hexBytes digits = data at hne
      rw [writes, sentBytes]
      split
      · next hlong =>
        rw [if_neg]
        · exact ⟨rfl, rfl⟩
        · rintro ⟨htwo, hforce⟩
          rw [hforce] at hlong
          exact hlong.elim (fun h => by omega) Bool.false_ne_true
      · next hshort =>
        obtain ⟨hfew, hforce⟩ := not_or.mp hshort
        split
        · next hone =>
          obtain ⟨b, rfl⟩ := List.length_eq_one_iff.mp hone
          exact ⟨rfl, rfl⟩
        · next hmore =>
          have htwo : data.length = 2 := by omega
          obtain ⟨a, b, rfl⟩ := List.length_eq_two.mp htwo
          rw [if_pos ⟨rfl, Bool.eq_false_iff.mpr hforce⟩, Transaction.op, List.getD_cons_zero,
            List.getD_cons_succ, List.getD_cons_zero, wordBytes_word]
          exact ⟨rfl, rfl⟩

/-- A call that ends has done what the transaction does, and its status is an error if that gives
nothing. -/
theorem run_call {S : Type} {d : Device S} {t : Transaction} {address : UInt} {opened : Int}
    {s s' : S} {status : Int} (h : (t.call address).run d opened s = (some status, s')) :
    ((t.run d address s).1 = none ↔ status < 0) ∧ (t.run d address s).2 = s' := by
  cases t with
  | readBlock command =>
      simp only [Transaction.call, CommCall.run] at h
      simp only [Transaction.run]
      generalize Fx2lp.readBlock d loopFuel address command (fun _ => 0) s = r at h ⊢
      obtain ⟨_ | ⟨status', data⟩, s₁⟩ := r
      · exact absurd (congrArg Prod.fst h).symm (Option.some_ne_none _)
      · obtain ⟨hstatus, rfl⟩ := Prod.mk.inj h
        obtain rfl : status' = status := Option.some.inj hstatus
        exact ⟨outcome_none status' _, rfl⟩
  | _ =>
      obtain ⟨hstatus, rfl⟩ := Prod.mk.inj h
      obtain rfl := Option.some.inj hstatus
      exact ⟨outcome_none _ _, rfl⟩

variable {D : Type} {dev : BusDevice D} {line : BusLine} {d : D} {fx : Fx2}

/-- The call of a transaction with the device ends. -/
theorem call_ends {way : Nat → Delivery} {t : Transaction} {address : UInt} (opened : Int)
    (haddr : address.setWidth 8 = dev.addr) (hcmd : dev.format t.command = some t.format)
    (hempty : fx.Empty) (hmanage : Manageable dev line way (fx.memOf dev line d) t) :
    ∃ status l, (t.call address).run (usb (dev.target line d) way) opened ⟨fx, 0⟩ =
      (some status, l) := by
  cases t with
  | readBlock command =>
      have hends : (Fx2lp.readBlock (usb (dev.target line d) way) loopFuel address command
          (fun _ => 0) ⟨fx, 0⟩).1 ≠ none := blockRead_ends haddr hcmd hempty hmanage
      simp only [Transaction.call, CommCall.run]
      generalize Fx2lp.readBlock (usb (dev.target line d) way) loopFuel address command
        (fun _ => 0) ⟨fx, 0⟩ = r at hends ⊢
      obtain ⟨_ | ⟨status, data⟩, l⟩ := r
      · exact absurd rfl hends
      · exact ⟨status, l, rfl⟩
  | _ => exact ⟨_, _, rfl⟩

/-- A command line for a device, whatever becomes of its transfers: the tool makes three calls,
stays inside its arrays, and the device is read or written once, or, if the status is an error, at
most once.  When nothing gets in the way, it is none. -/
theorem comm_transacts {ways : Nat → Nat → Delivery} {opened : Int}
    {cmd : CommandLine CommOption} {op : BusOp} {t : Transaction}
    (h : Requests junk cmd v op t) (hopens : 0 ≤ opened)
    (haddr : (BitVec.ofInt 32 v.opAddress).setWidth 8 = dev.addr)
    (hcmd : dev.format (BitVec.ofInt 8 v.opCommand) = some t.format) (hempty : fx.Empty)
    (hmanage : Manageable dev line (ways 2) (fx.memOf dev line d) t) :
    let T := dev.target line d
    let calls := [.openDevice v.device, .enablePec (if v.noPec then 0 else 1),
      t.call (BitVec.ofInt 32 v.opAddress)]
    ∃ status fx', commCalls T ways opened fx calls = (some status, fx') ∧
      main (commAnswers T ways opened fx) junk cmd .init = commEnd t status ⟨calls, false⟩ ∧
      (∃ r, (r = none ↔ status < 0) ∧
        Called dev.object op (fx.memOf dev line d) r (fx'.memOf dev line d)) ∧
      (line.Calm → (∀ k, (ways 2 k).fate = .delivered) → 0 ≤ status) := by
  intro T calls
  obtain ⟨hop, hcommand⟩ := op_asks h.asks
  obtain ⟨fx₁, hfx₁⟩ : ∃ fx₁, fx₁ = turn dev line d fx
    ⟨.enablePec (if v.noPec then 0 else 1), ways 1⟩ := ⟨_, rfl⟩
  have hpec : Unchanged dev line d fx fx₁ := by
    rw [hfx₁]
    exact turn_done (t := ⟨.enablePec (if v.noPec then 0 else 1), ways 1⟩) hempty trivial
  rw [← hcommand] at hcmd
  rw [← hpec.mem] at hmanage
  obtain ⟨status, l, hcall⟩ := call_ends opened haddr hcmd hpec.empty hmanage
  have hcalls : commCalls T ways opened fx calls = (some status, l.fx2) := by
    have hthird : commCalls T ways opened fx calls =
        (((t.call (BitVec.ofInt 32 v.opAddress)).run (usb T (ways 2)) opened ⟨fx₁, 0⟩).1,
          ((t.call (BitVec.ofInt 32 v.opAddress)).run (usb T (ways 2)) opened ⟨fx₁, 0⟩).2.fx2) := by
      rw [hfx₁]
      rfl
    rw [hthird, hcall]
  have hmain : main (commAnswers T ways opened fx) junk cmd .init =
      commEnd t (commAnswers T ways opened fx calls) ⟨calls, false⟩ := main_asks h hopens
  have hstatus : commAnswers T ways opened fx calls = status := by
    rw [commAnswers, hcalls, Option.getD_some]
  have hdone := transaction_called haddr hcmd hpec.empty hmanage
  obtain ⟨hfails, hend⟩ := run_call hcall
  rw [hend] at hdone
  have hcalled := hdone.called
  rw [hpec.mem, hop] at hcalled
  refine ⟨status, l.fx2, hcalls, ?_, ⟨_, hfails, hcalled⟩, fun hcalm hdel => ?_⟩
  · rw [← hstatus]
    exact hmain
  · exact Int.not_lt.mp fun hneg => hdone.succeeds hcalm hdel (hfails.mpr hneg)

/-- `--address 0x16 --command 0x1 --write 05`. -/
def writesFive : CommandLine CommOption :=
  ⟨7, [.address "0x16".toList, .command "0x1".toList, .write "05".toList]⟩

def fiveVars : CommVars :=
  { CommVars.init emptyJunk with
    op := .write, opAddress := 0x16, opCommand := 1, block := "05".toList }

theorem requests_five : Requests emptyJunk writesFive fiveVars
    (.write 1 (sentBytes false (hexBytes "05".toList)))
    (writes false 1 (hexBytes "05".toList)) where
  args := show 7 ≠ 1 by decide
  options := ⟨_, rfl⟩
  fits arg hmem := by
    obtain rfl : arg = "05".toList := by simpa [writesFive] using hmem
    decide
  address := show (0x16 : Int) ≠ -1 by decide
  command := show (1 : Int) ≠ -1 by decide
  asks := .write rfl ⟨(List.nil_append _).symm, .inl rfl, by decide, by decide, by decide,
    by decide⟩

/-- The count is set to 5, and the status gets lost. -/
theorem comm_transacts_counter :
    let ways : Nat → Nat → Delivery := fun k => if k = 2 then fun _ => ⟨0, .unacked 6⟩ else .all 0
    let T := BusDevice.counter.target .quick 0
    let t := writes false 1 (hexBytes "05".toList)
    let calls := [.openDevice fiveVars.device, .enablePec 1, t.call 0x16]
    ∃ status fx', commCalls T ways 1 Fx2.init calls = (some status, fx') ∧
      main (commAnswers T ways 1 Fx2.init) emptyJunk writesFive .init =
        commEnd t status ⟨calls, false⟩ ∧
      (∃ r, (r = none ↔ status < 0) ∧
        Called BusDevice.counter.object (.write 1 (sentBytes false (hexBytes "05".toList)))
          (Fx2.init.memOf .counter .quick 0) r (fx'.memOf .counter .quick 0)) ∧
      (BusLine.quick.Calm → (∀ k, (ways 2 k).fate = .delivered) → 0 ≤ status) :=
  comm_transacts requests_five (by decide) rfl rfl ⟨rfl, rfl⟩ trivial

end

end Comm

end Smbusb
