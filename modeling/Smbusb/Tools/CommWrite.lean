import Smbusb.Tools.Comm

/-!
# The blocks that smbusb_comm writes

With `--write` of so many hex digits that a block is to be written, `smbusb_comm` should send one
block of the bytes they stand for, or refuse (`SendsOrRefuses`).  It cuts the length of the block to
a byte, and when it takes a prefix `0x` off, it copies at most 254 characters to `block2` and leaves
the NUL out if there are as many.  So longer blocks come out wrong, or run past the end of an array
(`sendsOrRefuses_iff`).
-/

namespace Smbusb

open Logic Prog

/-- Whether a call sends something to the target. -/
def CommCall.onBus : CommCall → Bool
  | openDevice _ => false
  | enablePec _ => false
  | _ => true

namespace Comm

/-! ## The promise -/

/-- The run stays inside its arrays, and has sent one block with this data, or has sent nothing and
exits with an error. -/
def SendsOrRefuses (data : List Byte) : EStateM.Result (Exit Int) CommState Unit → Prop
  | .error (.jump code) s => s.oob = false ∧
      ((∃ address command, s.sent.filter CommCall.onBus = [.writeBlock address command data]) ∨
        s.sent.filter CommCall.onBus = [] ∧ code ≠ 0)
  | _ => False

/-- The last of the options for an operation is a `--write`: its argument is `digits`, with or
without a prefix, and a block is to be written. -/
structure WritesBlock (junk : CommJunk) (cmd : CommandLine CommOption) (v : CommVars)
    (pre digits : List Char) : Prop where
  args : cmd.argc ≠ 1
  options : ∃ s, options cmd.opts (.init junk) .init = .ok v s
  op : v.op = .write
  block : v.block = pre ++ digits
  pre : pre = [] ∨ pre = ['0', 'x'] ∨ pre = ['0', 'X']
  hex : AllHex digits
  even : digits.length % 2 = 0
  length : 6 ≤ digits.length ∨ 2 ≤ digits.length ∧ v.forceBlockWrite = true

/-- The arguments of `--write` fit into `block`. -/
def ArgumentsFit (opts : List CommOption) : Prop :=
  ∀ arg, .write arg ∈ opts → arg.length < blockSize

/-- What is in `block2` behind the characters that are copied to it. -/
def leftover (block2 : Mem Char) : List Char :=
  (block2.read strncpyLen (blockSize - strncpyLen)).takeWhile (· != nul)

/-- The rest of `block2` ends with a NUL, and is no digits, which are refused, or the very digits
that are missing. -/
def LuckyLeftover (block2 : Mem Char) (digits : List Char) : Prop :=
  (leftover block2).length < blockSize - strncpyLen ∧
    (¬ AllHex (leftover block2) ∨ digits.length ≤ 510 ∧
      hexBytes (leftover block2) = hexBytes (digits.drop strncpyLen))

/-- The digits come through. -/
def Survives (block2 : Mem Char) (pre digits : List Char) : Prop :=
  if pre = [] then digits.length ≤ 510
  else digits.length < strncpyLen ∨ LuckyLeftover block2 digits

/-! ## Digits -/

section

variable {c : Char} {d : Nat} {cs : List Char}

theorem toNat_tolower (c : Char) :
    (tolower c).toNat = if 65 ≤ c.toNat ∧ c.toNat ≤ 90 then c.toNat + 32 else c.toNat := by
  unfold tolower
  split
  · next h =>
    have hvalid : (c.toNat + 32).isValidChar := .inl (by omega)
    rw [Char.toNat_ofNat, if_pos hvalid]
  · rfl

/-- The check is for hex digits. -/
theorem isHex_tolower (c : Char) : isHex (tolower c) = (hexValue c).isSome := by
  have hlow := toNat_tolower c
  rw [Bool.eq_iff_iff, Option.isSome_iff_exists]
  simp only [isHex, Bool.or_eq_true, decide_eq_true_eq, hexValue_eq_some]
  constructor
  · intro h
    split at hlow
    · exact ⟨c.toNat - 55, by omega⟩
    · rcases h with h | h
      · exact ⟨c.toNat - 48, by omega⟩
      · exact ⟨c.toNat - 87, by omega⟩
  · rintro ⟨d, hd⟩
    split at hlow <;> omega

/-- The value that is taken is that of the digit. -/
theorem nibble_tolower (h : hexValue c = some d) : nibble (tolower c) = BitVec.ofNat 32 d := by
  have hlow := toNat_tolower c
  have hrange := hexValue_eq_some.mp h
  have hcode : (if '9'.toNat < (tolower c).toNat then ((tolower c).toNat : Int) - 'a'.toNat + 10
      else ((tolower c).toNat : Int) - '0'.toNat) = d := by
    have hnine : '9'.toNat = 57 := rfl
    have ha : 'a'.toNat = 97 := rfl
    have hzero : '0'.toNat = 48 := rfl
    split at hlow <;> split <;> omega
  rw [nibble, hcode, BitVec.ofInt_natCast]

/-- A byte is put together from its two digits. -/
theorem hexByte_tolower {c' : Char} {d' : Nat} (h : hexValue c = some d)
    (h' : hexValue c' = some d') :
    hexByte (tolower c) (tolower c') = BitVec.ofNat 8 (16 * d + d') := by
  have hlt := hexValue_lt h
  have hlt' := hexValue_lt h'
  have hor : 2 ^ 4 * d ||| d' = 2 ^ 4 * d + d' := (Nat.two_pow_add_eq_or_of_lt hlt' d).symm
  rw [hexByte, nibble_tolower h, nibble_tolower h']
  refine BitVec.eq_of_toNat_eq ?_
  rw [BitVec.toNat_setWidth, BitVec.toNat_or, BitVec.toNat_shiftLeft, BitVec.toNat_ofNat,
    BitVec.toNat_ofNat, BitVec.toNat_ofNat, Nat.shiftLeft_eq,
    Nat.mod_eq_of_lt (show d < 2 ^ 32 by omega), Nat.mod_eq_of_lt (show d' < 2 ^ 32 by omega),
    Nat.mod_eq_of_lt (show d * 2 ^ 4 < 2 ^ 32 by omega), Nat.mul_comm d, hor]
  rfl

/-- The bytes that are decoded, without one for an odd digit. -/
theorem take_hexDecode (h : AllHex cs) :
    (hexDecode (cs.map tolower)).take (cs.length / 2) = hexBytes cs := by
  induction cs using hexBytes.induct with
  | case1 => rfl
  | case2 a => simp [hexBytes]
  | case3 a b cs ih =>
      obtain ⟨ha, hrest⟩ := allHex_cons.mp h
      obtain ⟨hb, hcs⟩ := allHex_cons.mp hrest
      obtain ⟨da, hda⟩ := Option.isSome_iff_exists.mp ha
      obtain ⟨db, hdb⟩ := Option.isSome_iff_exists.mp hb
      have hlen : (a :: b :: cs).length / 2 = cs.length / 2 + 1 := by
        rw [List.length_cons, List.length_cons]
        omega
      rw [hlen, List.map_cons, List.map_cons, hexDecode, List.take_succ_cons, ih hcs, hexBytes,
        hexByte_tolower hda hdb, hda, hdb, Option.getD_some, Option.getD_some]

theorem length_hexDecode (cs : List Char) : (hexDecode cs).length = (cs.length + 1) / 2 := by
  induction cs using hexDecode.induct with
  | case1 => rfl
  | case2 a => simp [hexDecode]
  | case3 a b cs ih =>
      rw [hexDecode, List.length_cons, ih, List.length_cons, List.length_cons]
      omega

/-! ## The parts of a run -/

variable {Q : List Char → CommState → Prop} {E : Int → CommState → Prop} {s : CommState}

/-- Digits are made lower case, and anything else ends the tool. -/
theorem wp_lowerBlock (hhex : AllHex cs → Q (cs.map tolower) s) (hno : ¬ AllHex cs → E (-5) s) :
    wp (lowerBlock cs) Q E s := by
  induction cs generalizing Q with
  | nil => exact hhex allHex_nil
  | cons c cs ih =>
      rw [lowerBlock, wp_ite, isHex_tolower]
      split
      · next hbad =>
        refine hno fun h => ?_
        rw [(allHex_cons.mp h).1] at hbad
        cases hbad
      · next hgood =>
        have hc : (hexValue c).isSome := by
          rwa [Bool.not_eq_true, Bool.not_eq_false'] at hgood
        rw [wp_bind]
        refine ih (fun hcs => hhex (allHex_cons.mpr ⟨hc, hcs⟩)) fun hbad => ?_
        exact hno fun h => hbad (allHex_cons.mp h).2

/-- Digits have no prefix. -/
theorem stripPrefix_digits (block2 : Mem Char) (h : AllHex cs) :
    stripPrefix block2 cs = pure cs := by
  unfold stripPrefix
  split
  · next x rest =>
    have hx : (hexValue x).isSome := (allHex_cons.mp (allHex_cons.mp h).2).1
    rw [if_neg]
    rintro (rfl | rfl) <;> exact absurd hx (by decide)
  · rfl

/-- The string that is left when a prefix is taken off. -/
def stripped (block2 : Mem Char) (digits : List Char) : List Char :=
  if digits.length < strncpyLen then digits else digits.take strncpyLen ++ leftover block2

theorem nul_notMem_of_allHex (h : AllHex cs) : nul ∉ cs := fun hmem =>
  absurd (h nul hmem) (by decide)

theorem arrayString_strncpy (block2 : Mem Char) (h : AllHex cs) :
    arrayString (strncpy block2 cs) blockSize = stripped block2 cs := by
  have hnul : ∀ {l : List Char}, nul ∉ l → ∀ l', (l ++ l').takeWhile (· != nul) =
      l ++ l'.takeWhile (· != nul) := by
    intro l hl l'
    refine List.takeWhile_append_of_pos fun c hc => bne_iff_ne.mpr ?_
    rintro rfl
    exact hl hc
  have hread : ∀ l : List Char, l.length = strncpyLen → (block2.write 0 l).read 0 blockSize =
      l ++ block2.read strncpyLen (blockSize - strncpyLen) := by
    intro l hl
    have hsplit : (block2.write 0 l).read 0 (strncpyLen + (blockSize - strncpyLen)) =
        l ++ block2.read strncpyLen (blockSize - strncpyLen) := by
      generalize blockSize - strncpyLen = n
      rw [Mem.read_add, ← hl, Mem.read_write, Nat.zero_add,
        Mem.read_write_of_disjoint _ (.inr (by rw [Nat.zero_add]))]
    exact hsplit
  unfold arrayString strncpy stripped
  split
  · next hshort =>
    obtain ⟨m, hm⟩ : ∃ m, strncpyLen - cs.length = m + 1 := ⟨strncpyLen - cs.length - 1, by omega⟩
    rw [List.take_of_length_le (Nat.le_of_lt hshort), hread _ (by
      rw [List.length_append, List.length_replicate]
      omega), List.append_assoc, hnul (nul_notMem_of_allHex h), hm, List.replicate_succ]
    simp
  · next hlong =>
    rw [Nat.sub_eq_zero_of_le (Nat.not_lt.mp hlong), List.replicate_zero, List.append_nil,
      hread _ (by rw [List.length_take]; omega),
      hnul fun hmem => nul_notMem_of_allHex h (List.mem_of_mem_take hmem)]
    rfl

theorem wp_stripPrefix (block2 : Mem Char) {x : Char} (hx : x = 'x' ∨ x = 'X') (h : AllHex cs)
    (hQ : Q (stripped block2 cs) { s with
      oob := s.oob || decide (blockSize ≤ (stripped block2 cs).length) }) :
    wp (stripPrefix block2 ('0' :: x :: cs)) Q E s := by
  simp only [stripPrefix, if_pos hx, arrayString_strncpy block2 h]
  exact hQ

/-- What an option does to the state. -/
theorem option_state {o : CommOption} {v v' : CommVars} {s' : CommState}
    (h : option v o s = .ok v' s') : s'.sent = s.sent ∧
      (s'.oob = false ↔ s.oob = false ∧ ∀ arg, o = .write arg → arg.length < blockSize) := by
  cases o with
  | unknown => cases h
  | write optarg =>
      obtain ⟨-, rfl⟩ := EStateM.Result.ok.inj h
      refine ⟨rfl, ?_⟩
      rw [Bool.or_eq_false_iff, decide_eq_false_iff_not, Nat.not_le]
      refine and_congr_right fun _ => ⟨fun hlt arg harg => ?_, fun hall => hall _ rfl⟩
      rwa [← CommOption.write.inj harg]
  | _ =>
      obtain ⟨-, rfl⟩ := EStateM.Result.ok.inj h
      exact ⟨rfl, (and_iff_left fun _ harg => CommOption.noConfusion harg).symm⟩

/-- What the options do to the state. -/
theorem options_state {opts : List CommOption} {v v' : CommVars} {s' : CommState}
    (h : options opts v s = .ok v' s') : s'.sent = s.sent ∧
      (s'.oob = false ↔ s.oob = false ∧ ArgumentsFit opts) := by
  induction opts generalizing v s with
  | nil =>
      obtain ⟨-, rfl⟩ := EStateM.Result.ok.inj h
      exact ⟨rfl, (and_iff_left fun _ hmem => absurd hmem List.not_mem_nil).symm⟩
  | cons o opts ih =>
      simp only [options, bind, EStateM.bind] at h
      split at h
      · next v₁ s₁ hoption =>
        obtain ⟨hsent, hoob⟩ := option_state hoption
        obtain ⟨hsent', hoob'⟩ := ih h
        refine ⟨hsent'.trans hsent, ?_⟩
        rw [hoob', hoob, and_assoc]
        refine and_congr_right fun _ => ⟨?_, fun hall => ⟨?_, ?_⟩⟩
        · rintro ⟨hfirst, hrest⟩ arg hmem
          rcases List.mem_cons.mp hmem with heq | hmem
          · exact hfirst arg heq.symm
          · exact hrest arg hmem
        · exact fun arg harg => hall arg (harg ▸ List.mem_cons_self)
        · exact fun arg hmem => hall arg (List.mem_cons_of_mem o hmem)
      · cases h

end

section

variable {answers : CommAnswers} {junk : CommJunk} {v : CommVars} {s : CommState}
  {digits str : List Char} {status : Int}

/-- The bytes and the end of the string that is sent are right. -/
def Sound (digits str : List Char) : Prop :=
  (str.length + 1) / 2 ≤ bufSize ∧
    (hexDecode (str.map tolower)).take (str.length / 2 % 256) = hexBytes digits

/-- A block is sent. -/
theorem sends_block {s' : CommState} {address : UInt} {command : Byte} {data data' : List Byte}
    {code : Int} (h : s'.sent.filter CommCall.onBus = [.writeBlock address command data']) :
    SendsOrRefuses data (.error (.jump code) s') ↔ s'.oob = false ∧ data' = data := by
  refine and_congr_right fun _ => ⟨?_, ?_⟩
  · rintro (⟨address', command', hsent⟩ | ⟨hsent, -⟩)
    · rw [h] at hsent
      exact (CommCall.writeBlock.inj (List.head_eq_of_cons_eq hsent)).2.2
    · rw [h] at hsent
      cases hsent
  · rintro rfl
    exact .inl ⟨address, command, h⟩

/-- A block with other data breaks the promise. -/
theorem not_sends_of_sent {m : Comm Unit} {address : UInt} {command : Byte} {data data' : List Byte}
    (hsent : (endState m s).sent.filter CommCall.onBus = [.writeBlock address command data'])
    (hne : data' ≠ data) : ¬ SendsOrRefuses data (m s) := by
  intro h
  unfold endState at hsent
  cases hrun : m s with
  | ok a s' =>
      rw [hrun] at h
      exact h
  | error e s' =>
      rw [hrun] at h hsent
      cases e with
      | hang => exact h
      | jump code => exact hne ((sends_block hsent).mp h).2

/-- A promise that is kept if and only if `cond` holds. -/
theorem sendsOrRefuses_of_wp {m : Comm Unit} {cond : Prop} {data : List Byte}
    (h : wp m (fun _ _ => ¬ cond)
      (fun code s' => SendsOrRefuses data (.error (.jump code) s') ↔ cond) s) :
    SendsOrRefuses data (m s) ↔ cond := by
  unfold wp at h
  cases hrun : m s with
  | ok a s' =>
      rw [hrun] at h
      exact iff_of_false id h
  | error e s' =>
      rw [hrun] at h
      cases e with
      | jump code => exact h
      | hang => exact h.elim

/-- Nothing is sent. -/
theorem sends_nothing {s' : CommState} {data : List Byte} {code : Int}
    (h : s'.sent.filter CommCall.onBus = []) (hcode : code ≠ 0) :
    SendsOrRefuses data (.error (.jump code) s') ↔ s'.oob = false := by
  refine and_iff_left (.inr ⟨h, hcode⟩)

variable (digits) in
/-- What is done with the digits that are left. -/
theorem wp_sendHex {Q : Unit → CommState → Prop} (hpos : 0 < str.length)
    (hlong : 2 < str.length / 2 ∨ v.forceBlockWrite = true)
    (hsent : s.sent.filter CommCall.onBus = []) :
    wp (sendHex answers v status str) Q (fun code s' =>
      SendsOrRefuses (hexBytes digits) (.error (.jump code) s') ↔
        s.oob = false ∧ (¬ AllHex str ∨ Sound digits str)) s := by
  rw [sendHex, wp_bind]
  refine wp_lowerBlock (fun hhex => ?_) fun hno => ?_
  · have hdecoded : (hexDecode (str.map tolower)).length = (str.length + 1) / 2 := by
      rw [length_hexDecode, List.length_map]
    have hbuf : 0 < (hexDecode (str.map tolower)).length := by omega
    have hends : ∀ code, SendsOrRefuses (hexBytes digits) (.error (.jump code)
        ⟨s.sent ++ [.writeBlock (BitVec.ofInt 32 v.opAddress) (BitVec.ofInt 8 v.opCommand)
          ((hexDecode (str.map tolower)).take (str.length / 2 % 256))],
          s.oob || decide (bufSize ≤ (hexDecode (str.map tolower)).length - 1)⟩) ↔
        s.oob = false ∧ (¬ AllHex str ∨ Sound digits str) := by
      intro code
      rw [sends_block (by rw [List.filter_append, hsent]; rfl), Bool.or_eq_false_iff,
        decide_eq_false_iff_not, Nat.not_le, hdecoded, or_iff_right (not_not_intro hhex), Sound,
        and_assoc]
      refine and_congr_right fun _ => and_congr_left fun _ => ?_
      omega
    rw [List.length_map]
    simp only [finish, touch, exit, call, hbuf, hlong, if_true, wp_bind, wp_modify, wp_get, wp_pure,
      wp_ite, wp_goto]
    split
    · exact hends 0
    · exact hends _
  · rw [sends_nothing hsent (by decide)]
    exact (and_iff_left (.inl hno)).symm

/-- The string is right if it is as long as the digits, and not too long for its length. -/
theorem sound_iff (hhex : AllHex str) (hne : 2 ≤ digits.length) :
    Sound digits str ↔ str.length / 2 < 256 ∧ hexBytes str = hexBytes digits := by
  have hbuf : bufSize = 256 := rfl
  unfold Sound
  rcases Nat.lt_or_ge (str.length / 2) 256 with hlt | hge
  · rw [Nat.mod_eq_of_lt hlt, take_hexDecode hhex]
    exact and_congr_left fun _ => ⟨fun _ => hlt, fun _ => by omega⟩
  · refine iff_of_false ?_ fun h => by omega
    rintro ⟨hle, hdata⟩
    have hwrap : str.length / 2 = 256 := by omega
    rw [hwrap, Nat.mod_self, List.take_zero] at hdata
    have hlen := length_hexBytes digits
    rw [← hdata, List.length_nil] at hlen
    omega

/-- The promise, for the string that is left of the argument. -/
theorem survives_iff {pre : List Char} (block2 : Mem Char) (hhex : AllHex digits)
    (heven : digits.length % 2 = 0) (hne : 2 ≤ digits.length) :
    (if pre = [] then Sound digits digits
      else (stripped block2 digits).length < blockSize ∧
        (¬ AllHex (stripped block2 digits) ∨ Sound digits (stripped block2 digits))) ↔
      Survives block2 pre digits := by
  unfold Survives
  split
  · rw [sound_iff hhex hne]
    exact ⟨fun h => by omega, fun h => ⟨by omega, rfl⟩⟩
  · unfold stripped
    split
    · next hshort =>
      refine iff_of_true ⟨?_, .inr ((sound_iff hhex hne).mpr ⟨?_, rfl⟩)⟩ (.inl hshort)
      · exact Nat.lt_trans hshort (by decide)
      · have h254 : strncpyLen = 254 := rfl
        omega
    · next hlong =>
      rw [or_iff_right hlong, LuckyLeftover]
      have htake : (digits.take strncpyLen).length = 254 :=
        List.length_take_of_le (Nat.not_lt.mp hlong)
      have hprefix : AllHex (digits.take strncpyLen) := fun c hc => hhex c (List.mem_of_mem_take hc)
      have hrest : AllHex (digits.take strncpyLen ++ leftover block2) ↔ AllHex (leftover block2) :=
        allHex_append.trans (and_iff_right hprefix)
      have hdigits : hexBytes digits =
          hexBytes (digits.take strncpyLen) ++ hexBytes (digits.drop strncpyLen) := by
        rw [← hexBytes_append (by rw [htake]), List.take_append_drop]
      have hlength : (digits.take strncpyLen ++ leftover block2).length =
          254 + (leftover block2).length := by
        rw [List.length_append, htake]
      have hsize : blockSize = 1024 := rfl
      have hcopied : strncpyLen = 254 := rfl
      rw [hrest, hlength]
      refine and_congr (by omega) (or_congr_right' fun hno => ?_)
      have hall := Classical.not_not.mp hno
      rw [sound_iff (hrest.mpr hall) hne, hlength, hexBytes_append (by rw [htake]), hdigits,
        List.append_cancel_left_eq]
      refine and_congr_left fun heq => ?_
      have hbytes := congrArg List.length heq
      rw [length_hexBytes, length_hexBytes, List.length_drop] at hbytes
      omega

/-- The string that is left is long enough for a block. -/
theorem stripped_long (block2 : Mem Char)
    (h : 6 ≤ digits.length ∨ 2 ≤ digits.length ∧ v.forceBlockWrite = true) :
    0 < (stripped block2 digits).length ∧
      (2 < (stripped block2 digits).length / 2 ∨ v.forceBlockWrite = true) := by
  have hcopied : strncpyLen = 254 := rfl
  have hlength : digits.length ≤ (stripped block2 digits).length ∨
      254 ≤ (stripped block2 digits).length := by
    unfold stripped
    split
    · exact .inl (Nat.le_refl _)
    · rw [List.length_append, List.length_take]
      omega
  refine ⟨by omega, ?_⟩
  rcases h with h | ⟨-, hforce⟩
  · exact .inl (by omega)
  · exact .inr hforce

/-- The write, when the device is open and an address and a command are given. -/
theorem wp_write {cmd : CommandLine CommOption} {pre : List Char}
    (h : WritesBlock junk cmd v pre digits) (hsent : s.sent.filter CommCall.onBus = [])
    {Q : Unit → CommState → Prop} :
    wp (write answers junk v status) Q (fun code s' =>
      SendsOrRefuses (hexBytes digits) (.error (.jump code) s') ↔
        s.oob = false ∧ Survives junk.block2 pre digits) s := by
  have hne : 2 ≤ digits.length := by
    rcases h.length with h | h
    · omega
    · exact h.1
  have hlen : v.block.length = pre.length + digits.length := by rw [h.block, List.length_append]
  have heven := h.even
  rw [← survives_iff junk.block2 h.hex h.even hne, write, if_pos (by omega)]
  have hsplit : pre = [] ∨ ∃ x, (x = 'x' ∨ x = 'X') ∧ pre = ['0', x] := by
    rcases h.pre with hpre | hpre | hpre
    · exact .inl hpre
    · exact .inr ⟨_, .inl rfl, hpre⟩
    · exact .inr ⟨_, .inr rfl, hpre⟩
  rcases hsplit with rfl | ⟨x, hx, rfl⟩
  · rw [if_neg (by rw [hlen, List.length_nil]; omega), if_pos rfl, wp_bind, h.block,
      List.nil_append, stripPrefix_digits _ h.hex, wp_pure]
    have hlong : 2 < digits.length / 2 ∨ v.forceBlockWrite = true :=
      h.length.imp (fun h => by omega) And.right
    refine wp_mono (wp_sendHex digits (by omega) hlong hsent) (fun _ _ h => h) fun code s' hs' => ?_
    rw [hs', or_iff_right (not_not_intro h.hex)]
  · rw [if_neg (by rw [hlen]; simp only [List.length_cons, List.length_nil]; omega),
      if_neg (List.cons_ne_nil _ _), wp_bind, h.block, List.cons_append, List.cons_append,
      List.nil_append]
    obtain ⟨hpos, hlong⟩ := stripped_long junk.block2 h.length
    refine wp_stripPrefix junk.block2 hx h.hex ?_
    refine wp_mono (wp_sendHex digits hpos hlong hsent) (fun _ _ h => h) fun code s' hs' => ?_
    rw [hs', Bool.or_eq_false_iff, decide_eq_false_iff_not, Nat.not_le, and_assoc]

end

/-- What is sent is right exactly when the arguments fit and the digits come through, or nothing is
to be sent because the device does not open, or the address or the command is missing. -/
theorem sendsOrRefuses_iff (answers : CommAnswers) (junk : CommJunk)
    (cmd : CommandLine CommOption) (v : CommVars) (pre digits : List Char)
    (h : WritesBlock junk cmd v pre digits) :
    SendsOrRefuses (hexBytes digits) (main answers junk cmd .init) ↔
      ArgumentsFit cmd.opts ∧ (answers [.openDevice v.device] < 0 ∨ v.opAddress = -1 ∨
        v.opCommand = -1 ∨ Survives junk.block2 pre digits) := by
  obtain ⟨s, hoptions⟩ := h.options
  obtain ⟨hsent, hoob⟩ := options_state hoptions
  have hfits : s.oob = false ↔ ArgumentsFit cmd.opts := hoob.trans (and_iff_right rfl)
  rw [← hfits]
  have hempty : s.sent = [] := hsent
  refine sendsOrRefuses_of_wp ?_
  rw [main, if_neg h.args, wp_bind, wp_of_run hoptions]
  simp only [run, exit, call, wp_bind, wp_modify, wp_get, wp_pure, wp_ite, wp_goto, hempty,
    List.nil_append]
  split
  · next hfails =>
    rw [sends_nothing rfl (by decide)]
    exact (and_iff_left (.inl hfails)).symm
  · next hopens =>
    split
    · next hmissing =>
      rw [sends_nothing rfl (by decide)]
      exact (and_iff_left (.inr (or_assoc.mp (.inl hmissing)))).symm
    · next hgiven =>
      obtain ⟨haddress, hcommand⟩ := not_or.mp hgiven
      split
      · next hnone =>
        have hlen := congrArg List.length (h.block.symm.trans hnone.2)
        rw [List.length_append, List.length_nil] at hlen
        have hlong := h.length
        omega
      · rw [h.op, or_iff_right hopens, or_iff_right haddress, or_iff_right hcommand]
        exact wp_write h rfl

/-- A device that takes everything. -/
def quietDevice : CommAnswers := fun _ => 0

def emptyJunk : CommJunk := ⟨0, [], fun _ => nul⟩

/-- `--address 0x16 --command 0x20 --write` with so many digits 0. -/
def writesZeros (n : Nat) : CommandLine CommOption :=
  ⟨7, [.address "0x16".toList, .command "0x20".toList, .write (List.replicate n '0')]⟩

def zeroVars (n : Nat) : CommVars :=
  { CommVars.init emptyJunk with
    op := .write, opAddress := 0x16, opCommand := 0x20, block := List.replicate n '0' }

theorem writesBlock_zeros {n : Nat} (heven : n % 2 = 0) (hn : 6 ≤ n) :
    WritesBlock emptyJunk (writesZeros n) (zeroVars n) [] (List.replicate n '0') where
  args := show 7 ≠ 1 by decide
  options := ⟨_, rfl⟩
  op := rfl
  block := rfl
  pre := .inl rfl
  hex c hc := by
    rw [List.eq_of_mem_replicate hc]
    decide
  even := by rwa [List.length_replicate]
  length := .inl (by rwa [List.length_replicate])

/-- A block of three bytes. -/
theorem sendsOrRefuses_iff_three :
    SendsOrRefuses (hexBytes (List.replicate 6 '0'))
        (main quietDevice emptyJunk (writesZeros 6) .init) ↔
      ArgumentsFit (writesZeros 6).opts ∧ (quietDevice [.openDevice (zeroVars 6).device] < 0 ∨
        (zeroVars 6).opAddress = -1 ∨ (zeroVars 6).opCommand = -1 ∨
          Survives emptyJunk.block2 [] (List.replicate 6 '0')) :=
  sendsOrRefuses_iff quietDevice emptyJunk _ _ _ _ (writesBlock_zeros (by decide) (by decide))

/-- A block of 256 bytes is sent as one of none. -/
theorem not_sendsOrRefuses_empty :
    ¬ SendsOrRefuses (hexBytes (List.replicate 512 '0'))
      (main quietDevice emptyJunk (writesZeros 512) .init) := by
  have hsent : (endState (main quietDevice emptyJunk (writesZeros 512)) .init).sent.filter
      CommCall.onBus = [.writeBlock 0x16 0x20 []] := by decide +kernel
  refine not_sends_of_sent hsent fun h => ?_
  have hlen := length_hexBytes (List.replicate 512 '0')
  rw [← h, List.length_replicate] at hlen
  cases hlen

end Comm

end Smbusb
