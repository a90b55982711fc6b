import Smbusb.Firmware.Effects
import Smbusb.Firmware.Genuine

/-!
# The PEC check of a read

When a read request sets `pec_failed`, and when it should.

*The bus.*  `PecMismatch` is what the bus shows of a read whose PEC is wrong: all its bytes
came in, and the last one is not the packet error code of all the bytes before it.

*The firmware.*  `Fx2.ChecksWrong` is when the check of the firmware fails: over the values it
was handed, or over no byte at all when the count wraps.  A read sets `pec_failed` exactly
then (`ReadEnd.pecFailed_iff`), and no request but `GET_CLEAR_PEC_FAIL` takes it back
(`keeps_pecFailed`).  The two agree when the PEC byte arrived (`ReadEnd.mismatch_iff`).
-/

namespace Smbusb

open Logic Prog Fw Handler

/-! ## On the bus -/

/-- The bytes of a read before its PEC, for the first byte `c`. -/
def ReadKind.bytes (c : Byte) : ReadKind → Nat
  | byte => 1
  | word => 2
  | block => c.toNat + 1

/-- All bytes of the read and a PEC were received, and the PEC is wrong. -/
def PecMismatch (kind : ReadKind) (ext : List Event) : Prop :=
  ∃ data p, recvBytes ext = data ++ [p] ∧ data.length = kind.bytes (data.headD 0) ∧
    (kind = .block → data.headD 0 ≠ 0) ∧ p ≠ crc8 (sentBytes ext ++ data)

/-! ## In the firmware -/

/-- The check of the firmware fails.  For a count that wraps it compares nothing with the code
of the address bytes. -/
def Fx2.ChecksWrong (s : Fx2) (T : Target) (kind : ReadKind) (smbAddr smbCmd : Word) : Prop :=
  s.pecEnabled = true ∧ ∃ b, addressRead T smbAddr smbCmd s.toI2c = (some true, b) ∧
    (kind = .block ∧ (countCall T b).1 = 0xFE ∧ crc8 (readAddress smbAddr smbCmd) ≠ 0 ∨
      (kind = .block → (countCall T b).1 ≠ 0 ∧ (countCall T b).1 < 0xFE) ∧
        PecWrong smbAddr smbCmd (transfer T true true (kind.calls s.pecEnabled (countCall T b).1)
          (kind.calls s.pecEnabled (countCall T b).1) b).1)

/-- Every byte of the read arrives, and the one for the PEC is wrong. -/
def Fx2.PecArrivesWrong (s : Fx2) (T : Target) (kind : ReadKind) (smbAddr smbCmd : Word) : Prop :=
  ∃ b, addressRead T smbAddr smbCmd s.toI2c = (some true, b) ∧
    (kind = .block → (countCall T b).1 ≠ 0 ∧ (countCall T b).1 < 0xFE) ∧
    (∃ ext, Extends b ext (transfer T true true (kind.calls s.pecEnabled (countCall T b).1)
      (kind.calls s.pecEnabled (countCall T b).1) b).2 ∧ .lost ∉ ext) ∧
    (transfer T true true (kind.calls s.pecEnabled (countCall T b).1)
      (kind.calls s.pecEnabled (countCall T b).1) b).2.i2dat ≠
        crc8 (readAddress smbAddr smbCmd ++ (transfer T true true
          (kind.calls s.pecEnabled (countCall T b).1)
          (kind.calls s.pecEnabled (countCall T b).1) b).1.dropLast)

section

variable {T : Target} {smbAddr smbCmd : Word} {s s' : Fx2} {ok : Bool} {kind : ReadKind}

theorem checksWrong_iff {r : Option Bool} {b : I2c}
    (haddr : addressRead T smbAddr smbCmd s.toI2c = (r, b)) :
    s.ChecksWrong T kind smbAddr smbCmd ↔ s.pecEnabled = true ∧ r = some true ∧
      (kind = .block ∧ (countCall T b).1 = 0xFE ∧ crc8 (readAddress smbAddr smbCmd) ≠ 0 ∨
      (kind = .block → (countCall T b).1 ≠ 0 ∧ (countCall T b).1 < 0xFE) ∧
        PecWrong smbAddr smbCmd (transfer T true true (kind.calls s.pecEnabled (countCall T b).1)
          (kind.calls s.pecEnabled (countCall T b).1) b).1) := by
  refine and_congr_right fun _ => ⟨?_, ?_⟩
  · rintro ⟨b', hb', h⟩
    rw [haddr, Prod.mk.injEq] at hb'
    obtain ⟨hr, rfl⟩ := hb'
    exact ⟨hr, h⟩
  · rintro ⟨hr, h⟩
    exact ⟨b, by rw [haddr, hr], h⟩

theorem pecArrivesWrong_iff {r : Option Bool} {b : I2c}
    (haddr : addressRead T smbAddr smbCmd s.toI2c = (r, b)) :
    s.PecArrivesWrong T kind smbAddr smbCmd ↔ r = some true ∧
      (kind = .block → (countCall T b).1 ≠ 0 ∧ (countCall T b).1 < 0xFE) ∧
      (∃ ext, Extends b ext (transfer T true true (kind.calls s.pecEnabled (countCall T b).1)
        (kind.calls s.pecEnabled (countCall T b).1) b).2 ∧ .lost ∉ ext) ∧
      (transfer T true true (kind.calls s.pecEnabled (countCall T b).1)
        (kind.calls s.pecEnabled (countCall T b).1) b).2.i2dat ≠
          crc8 (readAddress smbAddr smbCmd ++ (transfer T true true
            (kind.calls s.pecEnabled (countCall T b).1)
            (kind.calls s.pecEnabled (countCall T b).1) b).1.dropLast) := by
  constructor
  · rintro ⟨b', hb', h⟩
    rw [haddr, Prod.mk.injEq] at hb'
    obtain ⟨hr, rfl⟩ := hb'
    exact ⟨hr, h⟩
  · rintro ⟨hr, h⟩
    exact ⟨b, by rw [haddr, hr], h⟩

/-- A read sets `pec_failed` exactly when its check fails. -/
theorem ReadEnd.pecFailed_iff (h : ReadEnd T kind smbAddr smbCmd s ok s') :
    s'.pecFailed = true ↔ s.pecFailed = true ∨ s.ChecksWrong T kind smbAddr smbCmd := by
  cases h with
  | noStart haddr _ hsame => rw [hsame, checksWrong_iff haddr]; simp
  | nack haddr _ hsame => rw [hsame, checksWrong_iff haddr]; simp
  | @refused b b' c _ haddr hkind hcount hbad _ hsame =>
      rw [hsame, checksWrong_iff haddr, hcount, or_iff_left]
      rintro ⟨-, -, ⟨-, hwrap, -⟩ | ⟨hgood, -⟩⟩
      · rw [show c = 0xFE from hwrap] at hbad
        exact absurd hbad (by decide)
      · obtain ⟨h0, hlt⟩ := hgood hkind
        rcases hbad with rfl | rfl
        · exact h0 rfl
        · exact absurd hlt (show ¬ (0xFF : Byte) < 0xFE by decide)
  | @wrapped b b' _ _ haddr hkind hcount hok _ hfailed _ =>
      have hiff : s.ChecksWrong T kind smbAddr smbCmd ↔
          s.pecEnabled = true ∧ crc8 (readAddress smbAddr smbCmd) ≠ 0 := by
        rw [checksWrong_iff haddr, hcount]
        refine and_congr_right fun _ => ⟨?_, fun h => ⟨rfl, .inl ⟨hkind, rfl, h⟩⟩⟩
        rintro ⟨-, ⟨-, -, h⟩ | ⟨hgood, -⟩⟩
        · exact h
        · exact absurd (hgood hkind).2 (show ¬ (0xFE : Byte) < 0xFE by decide)
      rw [hfailed, hiff, Bool.or_eq_true, hok]
      simp
  | @mismatch b b' vs _ haddr hgood hrow hon hwrong _ hfailed =>
      refine iff_of_true hfailed (.inr ((checksWrong_iff haddr).mpr ⟨hon, rfl, .inr ⟨hgood, ?_⟩⟩))
      rw [hrow]
      exact hwrong
  | @done b b' vs _ haddr hgood hrow hright _ hsame _ _ =>
      rw [hsame, checksWrong_iff haddr, hrow, or_iff_left]
      rintro ⟨hon, -, ⟨hkind, hwrap, -⟩ | ⟨-, hwrong⟩⟩
      · have hlt := (hgood hkind).2
        rw [hwrap] at hlt
        exact absurd hlt (by decide)
      · exact hright hon hwrong

/-! ## The bytes of a read -/

/-- Once the target is addressed, the bus has seen the address bytes and no other. -/
theorem addressRead_sent {s b : I2c} (haddr : addressRead T smbAddr smbCmd s = (some true, b)) :
    ∃ ext, Extends s ext b ∧ sentBytes ext = readAddress smbAddr smbCmd ∧ recvBytes ext = [] := by
  obtain ⟨k, hk⟩ := i2cStartTries_extends T i2cMaxRetries s
  rw [← i2cStart] at hk
  simp only [addressRead] at haddr
  generalize i2cStart T s = r at hk haddr
  obtain ⟨started, b₀⟩ := r
  cases started with
  | false => simp at haddr
  | true =>
      simp only [if_true] at hk haddr
      obtain ⟨ext₁, hext₁, -, hall⟩ := sendAll_extends (T := T) [toByte smbAddr, toByte smbCmd] b₀
      generalize sendAll T [toByte smbAddr, toByte smbCmd] b₀ = r at hext₁ hall haddr
      obtain ⟨acked, b₁⟩ := r
      cases acked with
      | false => simp at haddr
      | true =>
          have hrestart : Extends b₁ [.restart] (i2cRestart b₁) := rfl
          obtain ⟨a, hack, hext₂⟩ := i2cByteout_extends T (toByte (smbAddr + 1)) (i2cRestart b₁)
          simp only [if_true, Prod.mk.injEq, Option.some.injEq] at haddr
          rw [hack, decide_eq_true_eq] at haddr
          obtain ⟨rfl, rfl⟩ := haddr
          refine ⟨_, ((hk.trans hext₁).trans hrestart).trans hext₂, ?_, ?_⟩
          · simp [hall rfl, readAddress]
          · simp [hall rfl, recvBytes]

/-- A row of calls goes on from the first ones. -/
theorem transfer_from (first last : Bool) (n : Nat) {k m : Nat} (h : k ≤ m) (b : I2c) :
    ∃ ext, Extends (transfer T first last n k b).2 ext (transfer T first last n m b).2 ∧
      sentBytes ext = [] := by
  induction m, h using Nat.le_induction with
  | base => exact Quiet.refl _
  | succ m _ ih =>
      have hcall := quiet_bytein T
        (first && m == 0) (first && m == 0 && n == 1) (last && m + 2 == n)
        (last && m + 1 == n) (transfer T first last n m b).2
      exact Quiet.trans ih hcall

/-- What a read of `n` bytes shows on the bus. -/
theorem transfer_bus {n : Nat} (hn : 0 < n) (b : I2c) :
    ∃ ext, Extends b ext (transfer T true true n n b).2 ∧ sentBytes ext = [] ∧
      (.lost ∉ ext → recvBytes ext = (transfer T true true n n b).1.dropLast ++
        [(transfer T true true n n b).2.i2dat]) ∧
      (.lost ∈ ext → (recvBytes ext).length < n) := by
  obtain ⟨ext, hext, hmoves, -⟩ := transfer_moves T true true hn (Nat.le_refl n) b
  obtain ⟨ext', hext', hsent⟩ := transfer_from (T := T) true true n (Nat.zero_le n) b
  obtain rfl := hext.unique hext'
  refine ⟨ext, hext, hsent, fun hlost => ?_, fun hlost => ?_⟩
  · simpa [waiting, certain] using hmoves.whole hlost
  · have hlen := hmoves.short hlost
    simp [waiting] at hlen
    omega

/-- A block read receives its count first, unless it is handed over as 0. -/
theorem transfer_count {n : Nat} (hn : 3 ≤ n) {b : I2c} {ext : List Event}
    (hcount : (countCall T b).1 ≠ 0) (hext : Extends b ext (transfer T true true n n b).2) :
    ∃ rest, recvBytes ext = (countCall T b).1 :: rest := by
  obtain ⟨v, b', ext₀, hrun, hext₀, hmoves, hlost, -⟩ := i2cBytein_moves T true false false false b
  have hcall : countCall T b = (v, b') := hrun
  rw [hcall] at hcount ⊢
  have hwhole := hmoves.whole fun h => hcount (hlost h)
  have h1 : n ≠ 1 := by omega
  have h2 : n ≠ 2 := by omega
  have hfirst : transfer T true true n 1 b = ([v], b') := by
    have hopen : byteinAt T true true n 0 b = countCall T b := by
      have hsingle : (n == 1) = false := beq_false_of_ne h1
      have hbl : (2 == n) = false := beq_false_of_ne h2.symm
      have hend : (1 == n) = false := beq_false_of_ne h1.symm
      simp [byteinAt, countCall, hsingle, hbl, hend]
    rw [transfer_succ]
    simp [transfer, hopen, hcall]
  obtain ⟨ext', hext', -⟩ := transfer_from (T := T) true true n (show 1 ≤ n by omega) b
  rw [hfirst] at hext'
  obtain rfl := hext.unique (hext₀.trans hext')
  refine ⟨b'.i2dat :: recvBytes ext', ?_⟩
  rw [recvBytes_append]
  simp only [waiting, certain, if_true, Bool.false_eq_true, if_false, List.nil_append] at hwhole
  rw [hwhole]
  rfl

/-- The reads of a firmware with the PEC on: the bytes, and the PEC behind them. -/
theorem ReadKind.calls_eq (kind : ReadKind) (c : Byte) : kind.calls true c = kind.bytes c + 1 := by
  cases kind <;> simp [ReadKind.calls, ReadKind.bytes]

theorem ReadKind.bytes_pos (kind : ReadKind) (c : Byte) : 0 < kind.bytes c := by
  cases kind <;> simp [ReadKind.bytes]

/-- Nothing but a whole read shows a wrong PEC. -/
theorem not_pecMismatch_of_short {ext : List Event}
    (h : (recvBytes ext).length ≤ 1 ∨ kind = .block ∧ (recvBytes ext).length ≤ 2) :
    ¬ PecMismatch kind ext := by
  rintro ⟨data, p, hrecv, hlen, hcount, -⟩
  rw [hrecv, List.length_append, List.length_singleton] at h
  have hpos := kind.bytes_pos (data.headD 0)
  rcases h with h | ⟨rfl, h⟩
  · omega
  · have h0 : 0 < (data.headD 0).toNat := Nat.pos_of_ne_zero fun h => hcount rfl
      (BitVec.eq_of_toNat_eq h)
    simp only [ReadKind.bytes] at hlen
    omega

/-- A wrong PEC has arrived: what a row of calls with the PEC on shows of it. -/
theorem pecMismatch_iff {b b' : I2c} {vs : List Byte} {ext : List Event}
    (hgood : kind = .block → (countCall T b).1 ≠ 0 ∧ (countCall T b).1 < 0xFE)
    (hrow : transfer T true true (kind.calls true (countCall T b).1)
      (kind.calls true (countCall T b).1) b = (vs, b'))
    (hext : Extends b ext b') (sent : List Byte) :
    (∃ data p, recvBytes ext = data ++ [p] ∧ data.length = kind.bytes (data.headD 0) ∧
      (kind = .block → data.headD 0 ≠ 0) ∧ p ≠ crc8 (sent ++ data)) ↔
      .lost ∉ ext ∧ b'.i2dat ≠ crc8 (sent ++ vs.dropLast) := by
  have hn : 0 < kind.calls true (countCall T b).1 := by
    rw [kind.calls_eq]
    exact Nat.succ_pos _
  obtain ⟨ext', hext', hsent, hwhole, hshort⟩ := transfer_bus (T := T) hn b
  have hlen : (transfer T true true (kind.calls true (countCall T b).1)
      (kind.calls true (countCall T b).1) b).1.length = kind.calls true (countCall T b).1 :=
    length_transfer _ b
  rw [kind.calls_eq] at hn hrow hext' hwhole hlen hshort
  -- the first byte on the bus is the count of a block read
  have hhead : ∀ x rest, recvBytes ext' = x :: rest → kind = .block → x = (countCall T b).1 := by
    intro x rest hrecv hkind
    obtain ⟨h0, -⟩ := hgood hkind
    subst hkind
    have hc : 0 < (countCall T b).1.toNat := Nat.pos_of_ne_zero fun h =>
      h0 (BitVec.eq_of_toNat_eq h)
    obtain ⟨rest', hrest⟩ := transfer_count
      (show 3 ≤ ReadKind.block.bytes (countCall T b).1 + 1 by simp only [ReadKind.bytes]; omega)
      h0 hext'
    rw [hrecv, List.cons.injEq] at hrest
    exact hrest.1
  have hbytes : ∀ data p, recvBytes ext' = data ++ [p] → data ≠ [] →
      kind.bytes (data.headD 0) = kind.bytes (countCall T b).1 := by
    intro data p hrecv hne
    obtain ⟨x, rest, rfl⟩ := List.exists_cons_of_ne_nil hne
    cases kind with
    | byte => rfl
    | word => rfl
    | block => rw [List.headD_cons, hhead x _ hrecv rfl]
  rw [hrow] at hext' hwhole hlen
  obtain rfl := hext.unique hext'
  dsimp only at hwhole hlen
  constructor
  · rintro ⟨data, p, hrecv, hdata, -, hwrong⟩
    have hne : data ≠ [] := by
      rintro rfl
      exact absurd hdata.symm (kind.bytes_pos _).ne'
    rw [hbytes data p hrecv hne] at hdata
    have hlost : .lost ∉ ext := by
      intro hlost
      have hless := hshort hlost
      rw [hrecv, List.length_append, List.length_singleton, hdata] at hless
      exact absurd hless (Nat.lt_irrefl _)
    have hsplit := hwhole hlost
    rw [hrecv] at hsplit
    obtain ⟨hdrop, hpec⟩ := List.append_inj' hsplit rfl
    rw [List.singleton_inj] at hpec
    refine ⟨hlost, ?_⟩
    rw [← hdrop, ← hpec]
    exact hwrong
  · rintro ⟨hlost, hwrong⟩
    have hdrop : vs.dropLast.length = kind.bytes (countCall T b).1 := by
      rw [List.length_dropLast, hlen, Nat.add_sub_cancel]
    have hne : vs.dropLast ≠ [] := by
      intro hnil
      rw [hnil] at hdrop
      exact absurd hdrop (kind.bytes_pos _).ne
    refine ⟨vs.dropLast, b'.i2dat, hwhole hlost, ?_, fun hkind => ?_, hwrong⟩
    · rw [hdrop, hbytes _ _ (hwhole hlost) hne]
    · obtain ⟨x, rest, hcons⟩ := List.exists_cons_of_ne_nil hne
      have hrecv := hwhole hlost
      rw [hcons] at hrecv ⊢
      rw [List.headD_cons, hhead x _ hrecv hkind]
      exact (hgood hkind).1

/-- A read adds to the bus. -/
theorem ReadEnd.extends (h : ReadEnd T kind smbAddr smbCmd s ok s') :
    ∃ ext, Extends s.toI2c ext s'.toI2c := by
  obtain ⟨ext₀, hext₀, -⟩ := addressRead_silent T smbAddr smbCmd s.toI2c
  have hcount : ∀ b, ∃ ext, Extends b ext (countCall T b).2 := by
    intro b
    obtain ⟨ext, hext, -⟩ := countCall_receives (T := T) b
    exact ⟨ext, hext⟩
  have hrows : ∀ n b, ∃ ext, Extends b ext (transfer T true true n n b).2 := by
    intro n b
    obtain ⟨ext, hext, -⟩ := transfer_from (T := T) true true n (Nat.zero_le n) b
    exact ⟨ext, hext⟩
  cases h with
  | @noStart b _ haddr htrace _ =>
      rw [haddr] at hext₀
      split at htrace
      · exact ⟨_, htrace.trans hext₀⟩
      · exact ⟨_, hext₀.trans (htrace.trans (i2cStop_trace T b))⟩
  | @nack b _ haddr htrace _ =>
      rw [haddr] at hext₀
      exact ⟨_, hext₀.trans (htrace.trans (i2cStop_trace T b))⟩
  | @refused b b' c _ haddr _ hrun _ htrace _ =>
      obtain ⟨ext₁, hext₁⟩ := hcount b
      rw [haddr] at hext₀
      rw [hrun] at hext₁
      exact ⟨_, (hext₀.trans hext₁).trans (htrace.trans (i2cStop_trace T b'))⟩
  | @wrapped b b' _ _ haddr _ hrun _ htrace _ _ =>
      obtain ⟨ext₁, hext₁⟩ := hcount b
      rw [haddr] at hext₀
      rw [hrun] at hext₁
      exact ⟨_, htrace.trans (hext₀.trans hext₁)⟩
  | @mismatch b b' vs _ haddr _ hrow _ _ htrace _ =>
      obtain ⟨ext₁, hext₁⟩ := hrows (kind.calls s.pecEnabled (countCall T b).1) b
      rw [haddr] at hext₀
      rw [hrow] at hext₁
      split at htrace
      · exact ⟨_, htrace.trans (hext₀.trans hext₁)⟩
      · exact ⟨_, (hext₀.trans hext₁).trans (htrace.trans (i2cStop_trace T b'))⟩
  | @done b b' vs _ haddr _ hrow _ htrace _ _ _ =>
      obtain ⟨ext₁, hext₁⟩ := hrows (kind.calls s.pecEnabled (countCall T b).1) b
      rw [haddr] at hext₀
      rw [hrow] at hext₁
      exact ⟨_, htrace.trans (hext₀.trans hext₁)⟩

/-- The bus shows a wrong PEC exactly when the check fails and the PEC has arrived. -/
theorem ReadEnd.mismatch_iff (h : ReadEnd T kind smbAddr smbCmd s ok s') {ext : List Event}
    (hext : Extends s.toI2c ext s'.toI2c) :
    (s.pecEnabled = true ∧ ok = false ∧ PecMismatch kind ext) ↔
      s.ChecksWrong T kind smbAddr smbCmd ∧ s.PecArrivesWrong T kind smbAddr smbCmd := by
  obtain ⟨ext₀, hext₀, hrecv₀, -⟩ := addressRead_silent T smbAddr smbCmd s.toI2c
  have hstop : ∀ tr, recvBytes (tr ++ [Event.stop]) = recvBytes tr := by
    intro tr
    rw [recvBytes_append]
    exact List.append_nil _
  -- a read that ends before its row of calls has received too little to show a PEC
  have hshort : ∀ ext', Extends s.toI2c ext' s'.toI2c →
      ((recvBytes ext').length ≤ 1 ∨ kind = .block ∧ (recvBytes ext').length ≤ 2) →
      ¬ PecMismatch kind ext := by
    rintro ext' hext' hlen
    obtain rfl := hext.unique hext'
    exact not_pecMismatch_of_short hlen
  cases h with
  | @noStart b _ haddr htrace _ =>
      rw [haddr] at hext₀
      refine iff_of_false ?_ ?_
      · rintro ⟨-, -, hmis⟩
        cases kind with
        | byte =>
            rw [if_neg ReadKind.noConfusion] at htrace
            exact hshort (ext₀ ++ [.stop]) (hext₀.trans (htrace.trans (i2cStop_trace T b)))
              (by simp [hstop, hrecv₀]) hmis
        | word =>
            rw [if_neg ReadKind.noConfusion] at htrace
            exact hshort (ext₀ ++ [.stop]) (hext₀.trans (htrace.trans (i2cStop_trace T b)))
              (by simp [hstop, hrecv₀]) hmis
        | block =>
            rw [if_pos rfl] at htrace
            exact hshort ext₀ (htrace.trans hext₀) (by simp [hrecv₀]) hmis
      · rintro ⟨hcheck, -⟩
        exact absurd ((checksWrong_iff haddr).mp hcheck).2.1 (by simp)
  | @nack b _ haddr htrace _ =>
      rw [haddr] at hext₀
      refine iff_of_false ?_ ?_
      · rintro ⟨-, -, hmis⟩
        exact hshort (ext₀ ++ [.stop]) (hext₀.trans (htrace.trans (i2cStop_trace T b)))
          (by simp [hstop, hrecv₀]) hmis
      · rintro ⟨hcheck, -⟩
        exact absurd ((checksWrong_iff haddr).mp hcheck).2.1 (by simp)
  | @refused b b' c _ haddr hkind hcount hbad htrace _ =>
      rw [haddr] at hext₀
      obtain ⟨ext₁, hext₁, hlen⟩ := countCall_receives (T := T) b
      rw [hcount] at hext₁
      refine iff_of_false ?_ ?_
      · rintro ⟨-, -, hmis⟩
        refine hshort (ext₀ ++ ext₁ ++ [.stop])
          ((hext₀.trans hext₁).trans (htrace.trans (i2cStop_trace T b'))) (.inr ⟨hkind, ?_⟩) hmis
        rw [hstop, recvBytes_append, hrecv₀]
        exact hlen
      · rintro ⟨-, harr⟩
        obtain ⟨h0, hlt⟩ := ((pecArrivesWrong_iff haddr).mp harr).2.1 hkind
        rw [hcount] at h0 hlt
        rcases hbad with rfl | rfl
        · exact h0 rfl
        · exact absurd hlt (show ¬ (0xFF : Byte) < 0xFE by decide)
  | @wrapped b b' _ _ haddr hkind hcount hok htrace _ _ =>
      rw [haddr] at hext₀
      obtain ⟨ext₁, hext₁, hlen⟩ := countCall_receives (T := T) b
      rw [hcount] at hext₁
      refine iff_of_false ?_ ?_
      · rintro ⟨-, -, hmis⟩
        refine hshort (ext₀ ++ ext₁) (htrace.trans (hext₀.trans hext₁)) (.inr ⟨hkind, ?_⟩) hmis
        rw [recvBytes_append, hrecv₀]
        exact hlen
      · rintro ⟨-, harr⟩
        obtain ⟨-, hlt⟩ := ((pecArrivesWrong_iff haddr).mp harr).2.1 hkind
        rw [hcount] at hlt
        exact absurd hlt (show ¬ (0xFE : Byte) < 0xFE by decide)
  | @mismatch b b' vs _ haddr hgood hrow hon hwrong htrace hfailed =>
      obtain ⟨ext₁, hext₁, hsent₁, hrecv₁⟩ := addressRead_sent haddr
      obtain ⟨ext₂, hext₂, hsent₂⟩ := transfer_from (T := T) true true
        (kind.calls s.pecEnabled (countCall T b).1) (Nat.zero_le _) b
      rw [hrow] at hext₂
      have hbus : recvBytes ext = recvBytes ext₂ ∧ sentBytes ext = readAddress smbAddr smbCmd := by
        split at htrace
        · obtain rfl := hext.unique (htrace.trans (hext₁.trans hext₂))
          rw [recvBytes_append, sentBytes_append, hrecv₁, hsent₁, hsent₂]
          exact ⟨rfl, List.append_nil _⟩
        · obtain rfl := hext.unique ((hext₁.trans hext₂).trans (htrace.trans (i2cStop_trace T b')))
          rw [hstop, recvBytes_append, sentBytes_append, sentBytes_append, hrecv₁, hsent₁, hsent₂]
          exact ⟨rfl, List.append_nil _⟩
      have hmis := pecMismatch_iff hgood (by rwa [hon] at hrow) hext₂ (readAddress smbAddr smbCmd)
      have hcheck : s.ChecksWrong T kind smbAddr smbCmd := by
        refine (checksWrong_iff haddr).mpr ⟨hon, rfl, .inr ⟨hgood, ?_⟩⟩
        rw [hrow]
        exact hwrong
      rw [and_iff_right hon, and_iff_right rfl, and_iff_right hcheck, PecMismatch, hbus.1, hbus.2,
        hmis, pecArrivesWrong_iff haddr, and_iff_right rfl, and_iff_right hgood, hrow]
      refine and_congr_left fun _ => ⟨fun hlost => ⟨ext₂, hext₂, hlost⟩, ?_⟩
      rintro ⟨ext', hext', hlost⟩
      rwa [hext₂.unique hext']
  | @done b b' vs _ haddr hgood hrow hright htrace hsame _ _ =>
      refine iff_of_false (fun h => Bool.noConfusion h.2.1) ?_
      rintro ⟨hcheck, -⟩
      obtain ⟨hon, -, ⟨hkind, hwrap, -⟩ | ⟨-, hwrong⟩⟩ := (checksWrong_iff haddr).mp hcheck
      · have hlt := (hgood hkind).2
        rw [hwrap] at hlt
        exact absurd hlt (show ¬ (0xFE : Byte) < 0xFE by decide)
      · rw [hrow] at hwrong
        exact hright hon hwrong

end

/-! ## The other requests -/

theorem permits_pecFailed : Permits fun s s' => s'.pecFailed = s.pecFailed where
  bus _ _ _ := rfl
  scratch _ h _ _ := h

/-- A request that neither reads nor clears the flag leaves it alone. -/
theorem keeps_pecFailed (T : Target) (fuel : Nat) (setup : Setup) {cmd : Byte}
    (hcmd : ¬ SetsFlag cmd) : Keeps Fx2.pecFailed (handleVendorcommand T fuel cmd setup) :=
  keeps_of_within (within_handle permits_pecFailed T fuel setup (fun h => absurd h hcmd)
    (fun _ _ _ _ => rfl) fun _ _ _ => rfl)

/-- Handing out data leaves the flag alone. -/
theorem keeps_readBlockNext (fuel : Nat) : Keeps Fx2.pecFailed (readBlockNext fuel) :=
  keeps_of_within (permits_pecFailed.readBlockNext fuel fun _ _ _ => rfl)

end Smbusb
