import Smbusb.Host.Numbers

/-!
# Bytes in hex digits

What the digits of a string stand for, in either case, two for each byte (`hexBytes`).  The
functions of the source that read hex digits are compared with this.
-/

namespace Smbusb

/-! ## Digits -/

/-- The value of a hex digit. -/
def hexValue (c : Char) : Option Nat :=
  if 48 ≤ c.toNat ∧ c.toNat ≤ 57 then some (c.toNat - 48)
  else if 97 ≤ c.toNat ∧ c.toNat ≤ 102 then some (c.toNat - 87)
  else if 65 ≤ c.toNat ∧ c.toNat ≤ 70 then some (c.toNat - 55)
  else none

/-- The characters are hex digits. -/
def AllHex (cs : List Char) : Prop := ∀ c ∈ cs, (hexValue c).isSome

instance (cs : List Char) : Decidable (AllHex cs) := List.decidableBAll _ cs

section

variable {c : Char} {d : Nat} {cs cs' : List Char}

theorem hexValue_eq_some : hexValue c = some d ↔
    48 ≤ c.toNat ∧ c.toNat ≤ 57 ∧ d = c.toNat - 48 ∨
      97 ≤ c.toNat ∧ c.toNat ≤ 102 ∧ d = c.toNat - 87 ∨
      65 ≤ c.toNat ∧ c.toNat ≤ 70 ∧ d = c.toNat - 55 := by
  unfold hexValue
  split
  · rw [Option.some.injEq]
    omega
  · split
    · rw [Option.some.injEq]
      omega
    · split
      · rw [Option.some.injEq]
        omega
      · refine iff_of_false (Option.some_ne_none d).symm ?_
        omega

theorem hexValue_lt (h : hexValue c = some d) : d < 16 := by
  have hrange := hexValue_eq_some.mp h
  omega

/-- A hex digit is a digit of base 16. -/
theorem digitVal_of_hexValue (h : hexValue c = some d) : digitVal c = some d := by
  have hrange := hexValue_eq_some.mp h
  have hdigit : c.isDigit = true ↔ 48 ≤ c.toNat ∧ c.toNat ≤ 57 := by
    simp only [Char.isDigit, Bool.and_eq_true, decide_eq_true_eq, UInt32.le_iff_toNat_le]
    exact Iff.rfl
  have hlower : c.isLower = true ↔ 97 ≤ c.toNat ∧ c.toNat ≤ 122 := by
    simp only [Char.isLower, Bool.and_eq_true, decide_eq_true_eq, UInt32.le_iff_toNat_le]
    exact Iff.rfl
  have hupper : c.isUpper = true ↔ 65 ≤ c.toNat ∧ c.toNat ≤ 90 := by
    simp only [Char.isUpper, decide_eq_true_eq, UInt32.le_iff_toNat_le]
    exact Iff.rfl
  have hzero : '0'.toNat = 48 := rfl
  have ha : 'a'.toNat = 97 := rfl
  have hA : 'A'.toNat = 65 := rfl
  unfold digitVal
  simp only [hdigit, hlower, hupper, hzero, ha, hA]
  rcases hrange with hrange | hrange | hrange
  · rw [if_pos (by omega), hrange.2.2]
  · rw [if_neg (by omega), if_pos (by omega)]
    congr 1
    omega
  · rw [if_neg (by omega), if_neg (by omega), if_pos (by omega)]
    congr 1
    omega

theorem allHex_nil : AllHex [] := fun _ h => absurd h List.not_mem_nil

theorem allHex_cons : AllHex (c :: cs) ↔ (hexValue c).isSome ∧ AllHex cs := List.forall_mem_cons

theorem allHex_append : AllHex (cs ++ cs') ↔ AllHex cs ∧ AllHex cs' := List.forall_mem_append

end

/-! ## Bytes -/

/-- The bytes that the digits stand for.  An odd digit at the end is left out. -/
def hexBytes : List Char → List Byte
  | [] => []
  | [_] => []
  | a :: b :: cs =>
      BitVec.ofNat 8 (16 * (hexValue a).getD 0 + (hexValue b).getD 0) :: hexBytes cs

theorem length_hexBytes (cs : List Char) : (hexBytes cs).length = cs.length / 2 := by
  induction cs using hexBytes.induct with
  | case1 => rfl
  | case2 a => simp [hexBytes]
  | case3 a b cs ih =>
      rw [hexBytes, List.length_cons, ih, List.length_cons, List.length_cons]
      omega

theorem hexBytes_append {cs : List Char} (h : cs.length % 2 = 0) (cs' : List Char) :
    hexBytes (cs ++ cs') = hexBytes cs ++ hexBytes cs' := by
  induction cs using hexBytes.induct with
  | case1 => rfl
  | case2 a => exact absurd h (Nat.one_ne_zero)
  | case3 a b cs ih =>
      rw [List.length_cons, List.length_cons] at h
      rw [List.cons_append, List.cons_append, hexBytes, hexBytes, ih (by omega), List.cons_append]

theorem hexBytes_take (cs : List Char) (n : Nat) :
    hexBytes (cs.take (2 * n)) = (hexBytes cs).take n := by
  induction cs using hexBytes.induct generalizing n with
  | case1 => simp [hexBytes]
  | case2 a => cases n <;> simp [hexBytes, Nat.mul_succ]
  | case3 a b cs ih =>
      cases n with
      | zero => rfl
      | succ n =>
          rw [Nat.mul_succ, List.take_succ_cons, List.take_succ_cons, hexBytes, ih, hexBytes,
            List.take_succ_cons]

theorem hexBytes_drop (cs : List Char) (n : Nat) :
    hexBytes (cs.drop (2 * n)) = (hexBytes cs).drop n := by
  induction cs using hexBytes.induct generalizing n with
  | case1 => simp [hexBytes]
  | case2 a => cases n <;> simp [hexBytes, Nat.mul_succ]
  | case3 a b cs ih =>
      cases n with
      | zero => rfl
      | succ n =>
          rw [Nat.mul_succ, List.drop_succ_cons, List.drop_succ_cons, ih, hexBytes,
            List.drop_succ_cons]

/-- The number that bytes stand for, the high one first. -/
def bytesValue (bs : List Byte) : Nat := bs.foldl (fun n b => n * 256 + b.toNat) 0

/-- The values of the digits. -/
def hexValues (cs : List Char) : List Nat := cs.map fun c => (hexValue c).getD 0

theorem digitsOf_hex {cs : List Char} (h : AllHex cs) : digitsOf 16 cs = hexValues cs := by
  induction cs with
  | nil => rfl
  | cons c cs ih =>
      obtain ⟨hc, hcs⟩ := allHex_cons.mp h
      obtain ⟨d, hd⟩ := Option.isSome_iff_exists.mp hc
      rw [digitsOf_cons (digitVal_of_hexValue hd) (hexValue_lt hd), ih hcs, hexValues, hexValues,
        List.map_cons, hd, Option.getD_some]

/-- Digits stand for the number that their bytes stand for. -/
theorem digitsValue_hex {cs : List Char} (h : AllHex cs) (heven : cs.length % 2 = 0) :
    digitsValue 16 (hexValues cs) = bytesValue (hexBytes cs) := by
  have hfold : ∀ n, (hexValues cs).foldl (fun n d => n * 16 + d) n =
      (hexBytes cs).foldl (fun n b => n * 256 + b.toNat) n := by
    induction cs using hexBytes.induct with
    | case1 => exact fun n => rfl
    | case2 a => exact absurd heven Nat.one_ne_zero
    | case3 a b cs ih =>
        intro n
        obtain ⟨ha, hb, hcs⟩ : (hexValue a).isSome ∧ (hexValue b).isSome ∧ AllHex cs := by
          simpa only [allHex_cons] using h
        obtain ⟨da, hda⟩ := Option.isSome_iff_exists.mp ha
        obtain ⟨db, hdb⟩ := Option.isSome_iff_exists.mp hb
        have hda_lt := hexValue_lt hda
        have hdb_lt := hexValue_lt hdb
        have hbyte : (BitVec.ofNat 8 (16 * da + db)).toNat = 16 * da + db := by
          rw [BitVec.toNat_ofNat, Nat.mod_eq_of_lt (by omega)]
        have hnext : (n * 16 + da) * 16 + db = n * 256 + (16 * da + db) := by ring
        rw [List.length_cons, List.length_cons] at heven
        have hrest := ih hcs (by omega) (n * 256 + (16 * da + db))
        rw [hexBytes, hda, hdb, Option.getD_some, Option.getD_some, List.foldl_cons, hbyte, ← hrest,
          ← hnext]
        simp only [hexValues, List.map_cons, hda, hdb, Option.getD_some, List.foldl_cons]
  exact hfold 0

end Smbusb
