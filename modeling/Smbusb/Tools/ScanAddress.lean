import Smbusb.Firmware.Probing
import Smbusb.Tools.Scan

/-!
# What a scan probes

The values on the command line are numbers of any size (`Given`).  The tool keeps them in
`int`s and uses them as indices of `skipMap`, without a check.

*The options.*  `Represents` says how the locals of `main` stand for the given numbers, and
every option keeps it (`Represents.option`).

*The loop.*  `scanLoop_run` is the rule for all scans: what one probe keeps, the loop keeps,
and the probed values are those from `start` to `end` that `skipMap` does not exclude.

*Addresses.*  With the FX2LP driver an address scan is what its usage text says exactly if
no number leads out of `skipMap` and the `int`s stand for the same range as the numbers
given (`addressScan_iff`).
-/

namespace Smbusb

open Logic Prog Fw

/-! ## The loop -/

section Loop

variable {S : Type} {skipMap : Int → Byte} {test : Int → S → Option (Int × S)}

/-- The values of `n` turns from `i` on. -/
def scanValues : Int → Nat → List Int
  | _, 0 => []
  | i, n + 1 => i :: scanValues (i + 1) n

theorem mem_scanValues {i x : Int} {n : Nat} :
    x ∈ scanValues i n ↔ i ≤ x ∧ x < i + n := by
  induction n generalizing i with
  | zero =>
      simp only [scanValues, List.not_mem_nil, false_iff]
      omega
  | succ n ih =>
      simp only [scanValues, List.mem_cons, ih]
      omega

theorem pairwise_scanValues (i : Int) (n : Nat) : (scanValues i n).Pairwise (· < ·) := by
  induction n generalizing i with
  | zero => exact List.Pairwise.nil
  | succ n ih =>
      refine List.Pairwise.cons (fun x hx => ?_) (ih (i + 1))
      exact Int.lt_of_lt_of_le (Int.lt_succ i) (mem_scanValues.mp hx).1

variable (skipMap test) in
/-- The rule of scans.  `Inv` is about the probes made so far and the state of the driver. -/
theorem scanLoop_run (Inv : List Probe → S → Prop) (n : Nat) (i : Int)
    (hstep : ∀ x ∈ scanValues i n, ∀ ps s, skipMap x ≠ 0xFF → Inv ps s →
      ∃ status s', test x s = some (status, s') ∧ Inv (ps ++ [⟨x, status⟩]) s')
    (run : ScanRun) (s : S) (h0 : Inv run.probes s) :
    ∃ run' s', scanLoop skipMap test n i run s = some (run', s') ∧ Inv run'.probes s' ∧
      run'.probes.map Probe.value =
        run.probes.map Probe.value ++ (scanValues i n).filter (fun x => skipMap x ≠ 0xFF) ∧
      (run'.oob = false ↔ run.oob = false ∧ ∀ x ∈ scanValues i n, ¬ Outside x) := by
  induction n generalizing i run s with
  | zero =>
      refine ⟨run, s, rfl, h0, ?_, ?_⟩
      · exact (List.append_nil _).symm
      · exact (and_iff_left (fun x hx => absurd hx List.not_mem_nil)).symm
  | succ n ih =>
      have hrest := fun x hx => hstep x (List.mem_cons_of_mem i hx)
      have hoob : ∀ o : Bool, ((o || decide (Outside i)) = false ∧
          ∀ x ∈ scanValues (i + 1) n, ¬ Outside x) ↔
          o = false ∧ ∀ x ∈ scanValues i (n + 1), ¬ Outside x := by
        intro o
        rw [scanValues, List.forall_mem_cons, Bool.or_eq_false_iff, decide_eq_false_iff_not,
          and_assoc]
      by_cases hskip : skipMap i = 0xFF
      · obtain ⟨run', s', hrun, hinv, hvalues, ho⟩ :=
          ih (i + 1) hrest ⟨run.probes, run.oob || decide (Outside i)⟩ s h0
        refine ⟨run', s', ?_, hinv, ?_, ho.trans (hoob run.oob)⟩
        · rw [scanLoop, if_neg (not_not.mpr hskip)]
          exact hrun
        · rw [hvalues, scanValues, List.filter_cons, if_neg]
          simpa using hskip
      · obtain ⟨status, s₁, htest, h1⟩ := hstep i List.mem_cons_self run.probes s hskip h0
        obtain ⟨run', s', hrun, hinv, hvalues, ho⟩ :=
          ih (i + 1) hrest ⟨run.probes ++ [⟨i, status⟩], run.oob || decide (Outside i)⟩ s₁ h1
        refine ⟨run', s', ?_, hinv, ?_, ho.trans (hoob run.oob)⟩
        · rw [scanLoop, if_pos hskip, htest]
          exact hrun
        · rw [hvalues, scanValues, List.filter_cons, if_pos (by simpa using hskip),
            List.map_append, List.append_assoc]
          rfl

end Loop

/-! ## The options -/

/-- A number as the tool keeps it in an `int`. -/
def stored (n : Int) : Int := toInt (max (-2 ^ 63) (min (2 ^ 63 - 1) n))

/-- The numbers given on the command line. -/
structure Given where
  begin : Int
  endAt : Int
  skip : List Int
deriving DecidableEq, Repr

/-- What an option gives; the last `begin` and `end` hold, and the skip lists add up. -/
def Given.option (g : Given) : ScanOption → Given
  | .begin optarg => { g with begin := hexNumber optarg }
  | .endAt optarg => { g with endAt := hexNumber optarg }
  | .skip optarg => { g with skip := g.skip ++ (optarg.splitOn ',').map hexNumber }
  | _ => g

/-- What a command line gives. -/
def given (opts : List ScanOption) : Given := opts.foldl Given.option ⟨0, 0xFF, []⟩

/-- The locals of `main` stand for the numbers given. -/
structure Represents (g : Given) (v : ScanVars) : Prop where
  start : v.start = stored g.begin
  endAt : v.endAt = stored g.endAt
  oob : v.oob = false ↔ ∀ x ∈ g.skip, ¬ Outside x
  skipMap : ∀ i, ¬ Outside i → (v.skipMap i = 0xFF ↔ i ∈ g.skip)

section Options

variable {g : Given} {v : ScanVars}

theorem represents_init (stack : Int → Byte) : Represents ⟨0, 0xFF, []⟩ (ScanVars.init stack) where
  start := (by decide : (0 : Int) = stored 0)
  endAt := (by decide : (0xFF : Int) = stored 0xFF)
  oob := iff_of_true rfl fun x hx => absurd hx List.not_mem_nil
  skipMap i hi := by
    simp [ScanVars.init, hi]

/-- A number that does not fit a `long` is outside of `skipMap`, and stays there. -/
theorem outside_strtol (str : List Char) :
    (Outside (strtol str) ↔ Outside (hexNumber str)) ∧
      (¬ Outside (hexNumber str) → strtol str = hexNumber str) := by
  simp only [Outside, strtol]
  omega

theorem Represents.skipToken (h : Represents g v) (token : List Char) :
    Represents { g with skip := g.skip ++ [hexNumber token] } (Smbusb.skipToken v token) := by
  obtain ⟨hout, hin⟩ := outside_strtol token
  refine ⟨h.start, h.endAt, ?_, fun i hi => ?_⟩
  · simp only [Smbusb.skipToken, Bool.or_eq_false_iff, decide_eq_false_iff_not, h.oob, hout,
      List.forall_mem_append, List.forall_mem_singleton]
  · rw [List.mem_append, List.mem_singleton, ← h.skipMap i hi]
    by_cases hne : i = strtol token
    · subst hne
      refine iff_of_true (Function.update_self ..) (.inr (hin ?_))
      rwa [← hout]
    · have hnot : i ≠ hexNumber token := by
        rintro rfl
        exact hne (hin hi).symm
      simp only [Smbusb.skipToken, Function.update_of_ne hne, hnot, or_false]

theorem Represents.skipTokens (h : Represents g v) (tokens : List (List Char)) :
    Represents { g with skip := g.skip ++ tokens.map hexNumber }
      (tokens.foldl Smbusb.skipToken v) := by
  induction tokens generalizing g v with
  | nil =>
      rw [List.map_nil, List.append_nil]
      exact h
  | cons token tokens ih =>
      have h' := ih (h.skipToken token)
      rw [List.append_assoc] at h'
      exact h'

/-- Every option keeps the locals true to the numbers given. -/
theorem Represents.option (h : Represents g v) {opt : ScanOption} {v' : ScanVars}
    (hopt : scanOption v opt = some v') : Represents (g.option opt) v' := by
  cases opt with
  | skip optarg =>
      cases hopt
      exact h.skipTokens _
  | begin optarg =>
      cases hopt
      exact ⟨rfl, h.endAt, h.oob, h.skipMap⟩
  | endAt optarg =>
      cases hopt
      exact ⟨h.start, rfl, h.oob, h.skipMap⟩
  | help => cases hopt
  | device optarg =>
      cases hopt
      exact ⟨h.start, h.endAt, h.oob, h.skipMap⟩
  | address =>
      cases hopt
      exact ⟨h.start, h.endAt, h.oob, h.skipMap⟩
  | command optarg =>
      cases hopt
      exact ⟨h.start, h.endAt, h.oob, h.skipMap⟩
  | commandWrite optarg =>
      cases hopt
      exact ⟨h.start, h.endAt, h.oob, h.skipMap⟩

theorem Represents.options (h : Represents g v) {opts : List ScanOption} {v' : ScanVars}
    (hopts : scanOptions opts v = some v') : Represents (opts.foldl Given.option g) v' := by
  induction opts generalizing g v with
  | nil =>
      cases hopts
      exact h
  | cons opt opts ih =>
      rw [scanOptions] at hopts
      obtain ⟨v₁, hopt, hrest⟩ := Option.bind_eq_some_iff.mp hopts
      exact ih (h.option hopt) hrest

end Options

/-! ## Address scans with the FX2LP driver -/

/-- The FX2LP driver, with the firmware behind it. -/
def fx2lpScanDriver (T : Target) (way : Nat → Delivery) : ScanDriver Link where
  testAddressAck address l := some (Fx2lp.testAddressAck (usb T way) address l)
  testCommandAck address command l := some (Fx2lp.testCommandAck (usb T way) address command l)
  testCommandWrite address command l :=
    some (Fx2lp.testCommandWrite (usb T way) address command l)

/-- The addresses that a scan is to probe. -/
def expectedAddresses (g : Given) : List Int :=
  (scanValues 0 256).filter fun i =>
    g.begin ≤ i ∧ i ≤ g.endAt ∧ i ∉ g.skip ∧ i ≠ 0xA0 ∧ i ≠ 0xA1

/-- A scan probes what it is to probe, stays inside `skipMap`, and never puts an address of
the EEPROM on the bus. -/
structure ScansAddresses (g : Given) (l : Link) (run : ScanRun) (l' : Link) : Prop where
  probes : run.probes.map Probe.value = expectedAddresses g
  inside : run.oob = false
  bus : ∃ ext, l'.fx2.trace = l.fx2.trace ++ ext ∧ 0xA0 ∉ sentBytes ext ∧ 0xA1 ∉ sentBytes ext

/-- The numbers lead nowhere outside of `skipMap`, and what is lost of them in an `int` does
not change which addresses are between them. -/
structure FitsMap (g : Given) : Prop where
  skip : ∀ x ∈ g.skip, ¬ Outside x
  range : stored g.endAt < stored g.begin ∨ 0 ≤ stored g.begin ∧ stored g.endAt ≤ 0xFF
  same : ∀ i, ¬ Outside i → i ∉ g.skip → i ≠ 0xA0 → i ≠ 0xA1 →
    (stored g.begin ≤ i ∧ i ≤ stored g.endAt ↔ g.begin ≤ i ∧ i ≤ g.endAt)

/-- No value between the two `int`s is outside of `skipMap`. -/
theorem FitsMap.inside {g : Given} (h : FitsMap g) {i : Int}
    (hi : stored g.begin ≤ i ∧ i ≤ stored g.endAt) : ¬ Outside i := by
  have := h.range
  rw [Outside]
  omega

section Addresses

variable {T : Target} {way : Nat → Delivery} {stack : Int → Byte} {opts : List ScanOption}
  {v : ScanVars} {l l' : Link}

theorem testAddressAck_state {S : Type} (d : Device S) (address : UInt) (s : S) :
    (Fx2lp.testAddressAck d address s).2 =
      (d.inp smbTestAddressAck (Fx2lp.setupOf address 0) 1 s).2 := rfl

variable (T way) in
/-- A probe puts its own address on the bus, or nothing. -/
theorem testAddressAck_sent (address : UInt) (l : Link) :
    ∃ ext, (Fx2lp.testAddressAck (usb T way) address l).2.fx2.trace = l.fx2.trace ++ ext ∧
      sentBytes ext <+: [toByte (address.setWidth 16)] := by
  rw [testAddressAck_state]
  cases harr : (way l.sent).fate.arrives with
  | false =>
      obtain ⟨status, -, hinp⟩ :=
        usb_inp_lost T way smbTestAddressAck (Fx2lp.setupOf address 0) 1 harr
      refine ⟨[], ?_, List.nil_prefix⟩
      rw [hinp, List.append_nil]
      rfl
  | true =>
      have hserve : serve T smbTestAddressAck (Fx2lp.setupOf address 0) _ = _ :=
        serve_of_run smbTestAddressAck
          (testAddressAck_eq (address.setWidth 16) (l.fx2.tick (way l.sent).gap))
      obtain ⟨status, -, hinp⟩ := usb_inp_served way 1 harr hserve
      obtain ⟨ext, hext, hsent⟩ := sentBytes_probeFrame (T := T) [toByte (address.setWidth 16)]
        (l.fx2.tick (way l.sent).gap).toI2c
      refine ⟨ext, ?_, hsent⟩
      rw [hinp, Fx2.probed_toI2c]
      exact hext

/-- The address byte of a value from 0 to 255 is the value. -/
theorem toByte_address {i : Int} (hi : ¬ Outside i) :
    toByte ((BitVec.ofInt 32 i).setWidth 16) = BitVec.ofNat 8 i.toNat := by
  obtain ⟨n, rfl⟩ := Int.eq_ofNat_of_zero_le (Int.not_lt.mp (not_or.mp hi).1)
  have hn : n < 256 := by
    have := (not_or.mp hi).2
    omega
  apply BitVec.eq_of_toNat_eq
  simp [toByte]

theorem mem_scanRange {a b x : Int} : x ∈ scanValues a (scanTurns a b) ↔ a ≤ x ∧ x ≤ b := by
  rw [mem_scanValues, scanTurns]
  omega

/-- `skipMap` in front of an address scan. -/
def addressMap (v : ScanVars) : Int → Byte :=
  Function.update (Function.update v.skipMap 0xA0 0xFF) 0xA1 0xFF

theorem Represents.addressMap {g : Given} (h : Represents g v) {i : Int} (hi : ¬ Outside i) :
    Smbusb.addressMap v i ≠ 0xFF ↔ i ∉ g.skip ∧ i ≠ 0xA0 ∧ i ≠ 0xA1 := by
  by_cases h1 : i = 0xA1
  · subst h1
    exact iff_of_false (not_not.mpr (Function.update_self ..)) fun h => h.2.2 rfl
  · rw [Smbusb.addressMap, Function.update_of_ne h1]
    by_cases h0 : i = 0xA0
    · subst h0
      exact iff_of_false (not_not.mpr (Function.update_self ..)) fun h => h.2.1 rfl
    · rw [Function.update_of_ne h0, ne_eq, h.skipMap i hi]
      exact ⟨fun h => ⟨h, h0, h1⟩, fun h => h.1⟩

theorem mem_expectedAddresses {g : Given} {i : Int} :
    i ∈ expectedAddresses g ↔
      ¬ Outside i ∧ g.begin ≤ i ∧ i ≤ g.endAt ∧ i ∉ g.skip ∧ i ≠ 0xA0 ∧ i ≠ 0xA1 := by
  rw [expectedAddresses, List.mem_filter, mem_scanValues, decide_eq_true_eq, Outside]
  refine and_congr_left' ?_
  omega

/-- The values of a scan between two `int`s that stay inside `skipMap`. -/
theorem Represents.addressValues {g : Given} (h : Represents g v)
    (hin : ∀ i, stored g.begin ≤ i ∧ i ≤ stored g.endAt → ¬ Outside i)
    (hsame : ∀ i, ¬ Outside i → i ∉ g.skip → i ≠ 0xA0 → i ≠ 0xA1 →
      (stored g.begin ≤ i ∧ i ≤ stored g.endAt ↔ g.begin ≤ i ∧ i ≤ g.endAt)) :
    (scanValues v.start (scanTurns v.start v.endAt)).filter
        (fun x => Smbusb.addressMap v x ≠ 0xFF) = expectedAddresses g := by
  have hsorted : (expectedAddresses g).Pairwise (· < ·) := (pairwise_scanValues 0 256).filter _
  refine ((pairwise_scanValues _ _).filter _).eq_of_mem_iff hsorted fun i => ?_
  rw [mem_expectedAddresses, List.mem_filter, mem_scanRange, h.start, h.endAt, decide_eq_true_eq]
  constructor
  · rintro ⟨hrange, hmap⟩
    have hi : ¬ Outside i := hin i hrange
    obtain ⟨hskip, h0, h1⟩ := (h.addressMap hi).mp hmap
    obtain ⟨hb, he⟩ := (hsame i hi hskip h0 h1).mp hrange
    exact ⟨hi, hb, he, hskip, h0, h1⟩
  · rintro ⟨hi, hb, he, hskip, h0, h1⟩
    exact ⟨(hsame i hi hskip h0 h1).mpr ⟨hb, he⟩, (h.addressMap hi).mpr ⟨hskip, h0, h1⟩⟩

/-- The driver's part of an address scan, as the loop sees it. -/
theorem scan_address {S : Type}
    (drv : ScanDriver S) (hopts : scanOptions opts (ScanVars.init stack) = some v)
    (hmode : v.scanMode = some .address) (s : S) :
    scan drv stack opts s =
      scanLoop (addressMap v) (fun i => drv.testAddressAck (BitVec.ofInt 32 i))
        (scanTurns v.start v.endAt) v.start ⟨[], v.oob⟩ s := by
  have hne : opts ≠ [] := by
    rintro rfl
    cases hopts
    cases hmode
  rw [scan, if_neg hne, hopts, Option.bind_some, scanWith, hmode]
  rfl

/-- When an address scan is the one the command line asks for. -/
theorem addressScan_iff (hopts : scanOptions opts (ScanVars.init stack) = some v)
    (hmode : v.scanMode = some .address) :
    (∃ run l', scan (fx2lpScanDriver T way) stack opts l = some (run, l') ∧
      ScansAddresses (given opts) l run l') ↔ FitsMap (given opts) := by
  have hv : Represents (given opts) v := (represents_init stack).options hopts
  rw [scan_address _ hopts hmode l]
  constructor
  · rintro ⟨run, l', hrun, hscan⟩
    obtain ⟨run₁, l₁, hrun₁, -, hvalues, hoob⟩ := scanLoop_run (addressMap v)
      (fun i => (fx2lpScanDriver T way).testAddressAck (BitVec.ofInt 32 i))
      (fun _ _ => True) (scanTurns v.start v.endAt) v.start
      (fun x _ _ s _ _ => ⟨_, _, rfl, trivial⟩) ⟨[], v.oob⟩ l trivial
    obtain ⟨rfl, rfl⟩ := Prod.mk.inj (Option.some.inj (hrun.symm.trans hrun₁))
    obtain ⟨hskip, hinside⟩ := hoob.mp hscan.inside
    have hprobes := hvalues.symm.trans hscan.probes
    rw [List.map_nil, List.nil_append] at hprobes
    refine ⟨hv.oob.mp hskip, ?_, fun i hi hiskip h0 h1 => ?_⟩
    · rw [← hv.start, ← hv.endAt]
      rcases Int.lt_or_le v.endAt v.start with hlt | hle
      · exact .inl hlt
      · have h0 := hinside v.start (mem_scanRange.mpr ⟨Int.le_refl _, hle⟩)
        have h1 := hinside v.endAt (mem_scanRange.mpr ⟨hle, Int.le_refl _⟩)
        exact .inr ⟨Int.not_lt.mp (not_or.mp h0).1, Int.not_lt.mp (not_or.mp h1).2⟩
    · have hmem := congrArg (i ∈ ·) hprobes
      simp only [mem_expectedAddresses, List.mem_filter, mem_scanRange, decide_eq_true_eq,
        (hv.addressMap hi).mpr ⟨hiskip, h0, h1⟩, hv.start, hv.endAt, hi, hiskip, h0, h1, and_true,
        not_false_eq_true, ne_eq, true_and, eq_iff_iff] at hmem
      exact hmem
  · intro hfit
    have hinside : ∀ x ∈ scanValues v.start (scanTurns v.start v.endAt), ¬ Outside x := by
      intro x hx
      rw [mem_scanRange, hv.start, hv.endAt] at hx
      exact hfit.inside hx
    -- What a probe keeps: no address of the EEPROM has been on the bus.
    let Inv : List Probe → Link → Prop := fun _ l' => ∃ ext, l'.fx2.trace = l.fx2.trace ++ ext ∧
      0xA0 ∉ sentBytes ext ∧ 0xA1 ∉ sentBytes ext
    have hstep : ∀ x ∈ scanValues v.start (scanTurns v.start v.endAt), ∀ ps s,
        addressMap v x ≠ 0xFF → Inv ps s → ∃ status s',
          (fx2lpScanDriver T way).testAddressAck (BitVec.ofInt 32 x) s = some (status, s') ∧
            Inv (ps ++ [⟨x, status⟩]) s' := by
      rintro x hx - s hmap ⟨ext, hext, h0, h1⟩
      obtain ⟨ext', hext', hsent⟩ := testAddressAck_sent T way (BitVec.ofInt 32 x) s
      have hx' := hinside x hx
      obtain ⟨-, hne0, hne1⟩ := (hv.addressMap hx').mp hmap
      have hbyte : ∀ b : Byte, x ≠ b.toNat → b ∉ sentBytes ext' := by
        intro b hne hb
        have hmem := hsent.subset hb
        rw [List.mem_singleton, toByte_address hx'] at hmem
        rw [Outside] at hx'
        refine hne ?_
        rw [hmem, BitVec.toNat_ofNat]
        omega
      refine ⟨_, _, rfl, ext ++ ext', ?_, ?_, ?_⟩
      · rw [← List.append_assoc, ← hext]
        exact hext'
      · rw [sentBytes_append, List.mem_append]
        exact not_or.mpr ⟨h0, hbyte 0xA0 hne0⟩
      · rw [sentBytes_append, List.mem_append]
        exact not_or.mpr ⟨h1, hbyte 0xA1 hne1⟩
    obtain ⟨run, l', hrun, hinv, hvalues, hoob⟩ := scanLoop_run (addressMap v)
      (fun i => (fx2lpScanDriver T way).testAddressAck (BitVec.ofInt 32 i)) Inv
      (scanTurns v.start v.endAt) v.start hstep ⟨[], v.oob⟩ l
      ⟨[], (List.append_nil _).symm, List.not_mem_nil, List.not_mem_nil⟩
    refine ⟨run, l', hrun, ?_, hoob.mpr ⟨hv.oob.mpr hfit.skip, hinside⟩, hinv⟩
    rw [hvalues, List.map_nil, List.nil_append,
      hv.addressValues (fun _ hi => hfit.inside hi) hfit.same]

end Addresses

/-- A scan over four addresses, one of them skipped. -/
theorem addressScan_four :
    ∃ run l', scan (fx2lpScanDriver (.answers []) (Delivery.all 0)) (fun _ => 0)
        [.address, .begin "10".toList, .endAt "13".toList, .skip "11".toList] ⟨Fx2.init, 0⟩ =
          some (run, l') ∧
      ScansAddresses
        (given [.address, .begin "10".toList, .endAt "13".toList, .skip "11".toList])
        ⟨Fx2.init, 0⟩ run l' := by
  have hgiven : given [.address, .begin "10".toList, .endAt "13".toList, .skip "11".toList] =
      ⟨0x10, 0x13, [0x11]⟩ := by decide +kernel
  refine (addressScan_iff rfl rfl).mpr ?_
  rw [hgiven]
  exact ⟨by decide, by decide, fun i _ _ _ _ => Iff.rfl⟩

/-- A scan that passes the end of the map puts the address 0xA0 on the bus. -/
theorem not_scansAddresses :
    ¬ ∃ run l', scan (fx2lpScanDriver (.answers []) (Delivery.all 0)) (fun _ => 0)
        [.address, .begin "1a0".toList, .endAt "1a0".toList] ⟨Fx2.init, 0⟩ = some (run, l') ∧
      ScansAddresses (given [.address, .begin "1a0".toList, .endAt "1a0".toList])
        ⟨Fx2.init, 0⟩ run l' := by
  rintro ⟨run, l', hrun, -, -, ext, hext, h0, -⟩
  have hsent : (scan (fx2lpScanDriver (.answers []) (Delivery.all 0)) (fun _ => 0)
      [.address, .begin "1a0".toList, .endAt "1a0".toList] ⟨Fx2.init, 0⟩).map
        (fun r => sentBytes r.2.fx2.trace) = some [0xA0] := by decide +kernel
  rw [hrun, Option.map_some, Option.some.injEq, hext, sentBytes_append] at hsent
  have hmem : 0xA0 ∈ sentBytes Fx2.init.trace ++ sentBytes ext := by
    rw [hsent]
    exact List.mem_singleton_self _
  exact h0 ((List.mem_append.mp hmem).resolve_left List.not_mem_nil)

end Smbusb
