import Smbusb.Host.Options

/-!
# The numbers of a device URI

`libsmbusb.h` says how the numbers of a URI may be written: "HEX (0xXX, XXh), OCT (0XX),
BIN (0bXX) or DEC (XX) forms".  `Spelling` is that list.  It is stated without `strtoul`:
a numeral is built digit by digit, each digit worth its value and the ones in front of it
worth the base more.

`GetNumBase` means to tell the forms apart by the leading `0`, but compares the first
character with 0, the end of a string.  Only the `h` at the end is ever seen.  So a hex
number with the prefix and a binary one are read as decimal and end at the letter, and an
octal one is read as decimal.  `spelling_iff` says which numbers still come out right.
-/

namespace Smbusb

/-! ## Numerals -/

/-- A numeral of a base, and the number it stands for. -/
inductive Numeral (base : Nat) : List Char → Nat → Prop
  | digit {c : Char} {d : Nat} : digitVal c = some d → d < base → Numeral base [c] d
  | snoc {cs : List Char} {n : Nat} {c : Char} {d : Nat} :
      Numeral base cs n → digitVal c = some d → d < base →
        Numeral base (cs ++ [c]) (n * base + d)

/-- The number a list of digits stands for, the way `strtoul` adds it up. -/
def digitsValue (base : Nat) (ds : List Nat) : Nat := ds.foldl (fun n d => n * base + d) 0

@[simp] theorem digitsValue_zero_cons (base : Nat) (ds : List Nat) :
    digitsValue base (0 :: ds) = digitsValue base ds := by
  simp only [digitsValue, List.foldl_cons, Nat.zero_mul, Nat.add_zero]

theorem digitsOf_cons {base d : Nat} {c : Char} (hc : digitVal c = some d) (hd : d < base)
    (cs : List Char) : digitsOf base (c :: cs) = d :: digitsOf base cs := by
  rw [digitsOf, hc]
  simp only [if_pos hd]

/-- The digits end at a character that is not a digit of the base. -/
theorem digitsOf_cons_of_le {base d : Nat} {c : Char} (hc : digitVal c = some d) (hd : base ≤ d)
    (cs : List Char) : digitsOf base (c :: cs) = [] := by
  rw [digitsOf, hc]
  simp only [if_neg (Nat.not_lt.mpr hd)]

namespace Numeral

variable {base n : Nat} {cs : List Char}

/-- All digits of a numeral are read, whatever is behind it. -/
theorem digits (h : Numeral base cs n) :
    ∃ ds, digitsValue base ds = n ∧
      ∀ rest, digitsOf base (cs ++ rest) = ds ++ digitsOf base rest := by
  induction h with
  | digit hc hd =>
      refine ⟨[_], ?_, fun rest => digitsOf_cons hc hd rest⟩
      simp only [digitsValue, List.foldl_cons, List.foldl_nil, Nat.zero_mul, Nat.zero_add]
  | @snoc cs n c d _ hc hd ih =>
      obtain ⟨ds, hvalue, hread⟩ := ih
      refine ⟨ds ++ [d], ?_, fun rest => ?_⟩
      · rw [digitsValue, List.foldl_append, ← digitsValue, hvalue]
        rfl
      · rw [List.append_assoc, hread, List.singleton_append, digitsOf_cons hc hd,
          List.append_assoc, List.singleton_append]

/-- All characters of a numeral are digits of its base. -/
theorem mem (h : Numeral base cs n) :
    ∀ c ∈ cs, ∃ d, digitVal c = some d ∧ d < base := by
  induction h with
  | digit hc hd =>
      intro c hmem
      rw [List.mem_singleton.mp hmem]
      exact ⟨_, hc, hd⟩
  | snoc _ hc hd ih =>
      intro c hmem
      cases List.mem_append.mp hmem with
      | inl hmem => exact ih c hmem
      | inr hmem =>
          rw [List.mem_singleton.mp hmem]
          exact ⟨_, hc, hd⟩

/-- So a character of a higher value is not among them. -/
theorem not_mem {c : Char} {d : Nat} (h : Numeral base cs n) (hc : digitVal c = some d)
    (hd : base ≤ d) : c ∉ cs := by
  intro hmem
  obtain ⟨d', hc', hd'⟩ := h.mem c hmem
  rw [hc] at hc'
  cases hc'
  exact absurd hd' (Nat.not_lt.mpr hd)

theorem ne_nil (h : Numeral base cs n) : cs ≠ [] := by
  cases h with
  | digit _ _ => exact List.cons_ne_nil _ _
  | snoc _ _ _ => exact List.concat_ne_nil _ _

/-- An octal numeral read as a decimal one.  Below 8 there is no difference. -/
theorem octal_as_decimal (h : Numeral 8 cs n) :
    ∃ m, Numeral 10 cs m ∧ (m = n ↔ n < 8) ∧ n ≤ m ∧ m ≤ n * n := by
  induction h with
  | @digit c d hc hd =>
      refine ⟨d, .digit hc (Nat.lt_trans hd (by decide)), iff_of_true rfl hd, Nat.le_refl d, ?_⟩
      exact Nat.le_mul_self d
  | @snoc cs n c d _ hc hd ih =>
      obtain ⟨m, hm, heq, hle, hsq⟩ := ih
      refine ⟨m * 10 + d, .snoc hm hc (Nat.lt_trans hd (by decide)), ?_, by omega, ?_⟩
      · cases n with
        | zero => omega
        | succ n => exact iff_of_false (by omega) (by omega)
      · calc m * 10 + d
            ≤ n * n * 10 + d * d := Nat.add_le_add (Nat.mul_le_mul_right 10 hsq) (Nat.le_mul_self d)
          _ ≤ (n * 8 + d) * (n * 8 + d) := by nlinarith [Nat.zero_le (n * n), Nat.zero_le (n * d)]

end Numeral

/-! ## The documented forms -/

/-- The forms of a number. -/
inductive Form where
  /-- `0xXX`. -/
  | hex
  /-- `XXh`. -/
  | hexSuffix
  /-- `0XX`. -/
  | octal
  /-- `0bXX`. -/
  | binary
  /-- `XX`. -/
  | decimal
deriving DecidableEq, Repr

/-- A string spells a number in one of the forms. -/
inductive Spelling : Form → List Char → Nat → Prop
  | hex {x : Char} {cs : List Char} {n : Nat} :
      x = 'x' ∨ x = 'X' → Numeral 16 cs n → Spelling .hex ('0' :: x :: cs) n
  | hexSuffix {c : Char} {cs : List Char} {n : Nat} :
      c.isDigit → Numeral 16 (c :: cs) n → Spelling .hexSuffix (c :: cs ++ ['h']) n
  | octal {cs : List Char} {n : Nat} : Numeral 8 cs n → Spelling .octal ('0' :: cs) n
  | binary {b : Char} {cs : List Char} {n : Nat} :
      b = 'b' ∨ b = 'B' → Numeral 2 cs n → Spelling .binary ('0' :: b :: cs) n
  | decimal {cs : List Char} {n : Nat} :
      Numeral 10 cs n → cs.head? ≠ some '0' ∨ cs = ['0'] → Spelling .decimal cs n

/-- The numbers of a form that the driver reads right. -/
def Form.ReadRight (n : Nat) : Form → Prop
  | .hex => n = 0
  | .hexSuffix => True
  | .octal => n < 8
  | .binary => n = 0
  | .decimal => True

/-! ## What the driver reads -/

section Read

variable {c : Char} {cs : List Char}

theorem isDigit_ne_nul (hc : c.isDigit) : c ≠ nul := by
  rintro rfl
  exact absurd hc (by decide)

/-- The digits of base 10 are the decimal digits. -/
theorem isDigit_of_digitVal {d : Nat} (hc : digitVal c = some d) (hd : d < 10) : c.isDigit := by
  rw [digitVal] at hc
  split at hc
  · assumption
  · split at hc
    · cases hc
      exact absurd hd (Nat.not_lt.mpr (Nat.le_add_left 10 _))
    · split at hc
      · cases hc
        exact absurd hd (Nat.not_lt.mpr (Nat.le_add_left 10 _))
      · cases hc

/-- A digit in front is none of the characters that `strtoul` looks for there. -/
theorem isDigit_spec (hc : c.isDigit) : isSpace c = false ∧ c ≠ '-' ∧ c ≠ '+' := by
  refine ⟨?_, ?_, ?_⟩
  · simp only [Char.isDigit, Bool.and_eq_true, decide_eq_true_eq, UInt32.le_iff_toNat_le] at hc
    have hle : 48 ≤ c.toNat := hc.1
    simp only [isSpace, Bool.or_eq_false_iff, beq_eq_false_iff_ne, Bool.and_eq_false_iff,
      decide_eq_false_iff_not]
    refine ⟨?_, Or.inr (by omega)⟩
    rintro rfl
    exact absurd hle (by decide)
  · rintro rfl
    exact absurd hc (by decide)
  · rintro rfl
    exact absurd hc (by decide)

/-- `GetNumBase` tells a number with an `h` at the end from all others. -/
theorem getNumBase_of_isDigit (hc : c.isDigit) :
    getNumBase (c :: cs) = if cs.getLast? = some 'h' then 16 else 10 := by
  have hne := isDigit_ne_nul hc
  cases cs using List.reverseRecOn with
  | nil => simp [getNumBase, hne]
  | append_singleton cs z =>
      have hlast : (c :: (cs ++ [z])).getD (cs.length + 1) nul = z := by
        simp
      simp only [getNumBase, List.length_cons, List.length_append, List.length_nil,
        List.getD_cons_zero, hne, false_and, and_false, if_false, Nat.add_sub_cancel,
        List.getLast?_concat, Option.some.injEq]
      rw [if_neg (by omega)]
      simp only [Nat.zero_add, hlast]
      congr 1
      simp

/-- What `strtoul` reads when there is no space, sign or prefix in front. -/
theorem strtoul_of_isDigit {base : Nat} (hc : c.isDigit)
    (hx : base = 16 → cs.head? ≠ some 'x' ∧ cs.head? ≠ some 'X') :
    strtoul (c :: cs) base =
      let value := digitsValue base (digitsOf base (c :: cs))
      if 2 ^ 64 ≤ value then BitVec.allOnes 64 else BitVec.ofNat 64 value := by
  obtain ⟨hspace, hminus, hplus⟩ := isDigit_spec hc
  have hskip : (c :: cs).dropWhile isSpace = c :: cs := by
    rw [List.dropWhile_cons, hspace]
    rfl
  rw [strtoul, hskip]
  split
  next negative str hsign =>
  obtain ⟨rfl, rfl⟩ : false = negative ∧ c :: cs = str := by
    split at hsign
    · next h => exact absurd (List.cons.inj h).1 hminus
    · next h => exact absurd (List.cons.inj h).1 hplus
    · exact Prod.mk.inj hsign
  extract_lets str value value'
  have hprefix : str = c :: cs := by
    simp only [str]
    split
    · next x rest h =>
      obtain ⟨-, rfl⟩ := List.cons.inj h
      rw [if_neg]
      rintro ⟨hbase, rfl | rfl, -⟩
      · exact (hx hbase).1 rfl
      · exact (hx hbase).2 rfl
    · rfl
  have hvalue : value = value' := by
    simp only [value, value', hprefix, digitsValue]
  rw [hvalue]
  rfl

/-- The number is the one `strtoul` adds up, if that fits in a word. -/
theorem strtoul_eq_ofNat {base value : Nat} (hc : c.isDigit)
    (hx : base = 16 → cs.head? ≠ some 'x' ∧ cs.head? ≠ some 'X')
    (hvalue : digitsValue base (digitsOf base (c :: cs)) = value) (hlt : value < 2 ^ 64) :
    strtoul (c :: cs) base = BitVec.ofNat 64 value := by
  rw [strtoul_of_isDigit hc hx]
  simp only [hvalue, if_neg (Nat.not_le.mpr hlt)]

theorem ofNat_eq_setWidth {m : Nat} (hlt : m < 2 ^ 64) (n : UInt) :
    BitVec.ofNat 64 m = n.setWidth 64 ↔ m = n.toNat := by
  rw [← BitVec.toNat_inj, BitVec.toNat_ofNat, BitVec.toNat_setWidth, Nat.mod_eq_of_lt hlt,
    Nat.mod_eq_of_lt (Nat.lt_of_lt_of_le n.isLt (by decide))]

/-- A number whose last character is not an `h` is read as a decimal one. -/
theorem strtoul_decimal (value : Nat) (hc : c.isDigit) (hlast : 'h' ∉ cs)
    (hvalue : digitsValue 10 (digitsOf 10 (c :: cs)) = value) (hlt : value < 2 ^ 64) (n : UInt) :
    strtoul (c :: cs) (getNumBase (c :: cs)) = n.setWidth 64 ↔ value = n.toNat := by
  have hbase : getNumBase (c :: cs) = 10 := by
    rw [getNumBase_of_isDigit hc, if_neg]
    exact fun h => hlast (List.mem_of_getLast? h)
  rw [hbase, strtoul_eq_ofNat hc (fun h => absurd h (by decide)) hvalue hlt,
    ofNat_eq_setWidth hlt]

/-- A prefix that is a letter ends the number. -/
theorem strtoul_prefix {x : Char} {d : Nat} (hx : digitVal x = some d) (hd : 10 ≤ d)
    (hh : x ≠ 'h') (hlast : 'h' ∉ cs) (n : UInt) :
    strtoul ('0' :: x :: cs) (getNumBase ('0' :: x :: cs)) = n.setWidth 64 ↔ n.toNat = 0 := by
  rw [strtoul_decimal 0 (by decide) ?_ ?_ (by decide), eq_comm]
  · intro hmem
    cases List.mem_cons.mp hmem with
    | inl h => exact hh h.symm
    | inr h => exact hlast h
  · rw [digitsOf_cons (by decide : digitVal '0' = some 0) (by decide),
      digitsOf_cons_of_le hx hd]
    rfl

end Read

/-- Which spellings `FX2LP_Open` reads as the number they spell. -/
theorem spelling_iff {form : Form} {s : List Char} {n : UInt} (hs : Spelling form s n.toNat) :
    strtoul s (getNumBase s) = n.setWidth 64 ↔ form.ReadRight n.toNat := by
  have hn : n.toNat < 2 ^ 32 := n.isLt
  have hword : n.toNat < 2 ^ 64 := Nat.lt_trans hn (by decide)
  have hh : digitVal 'h' = some 17 := by decide
  generalize hm : n.toNat = m at hs
  cases hs with
  | hex hx hcs =>
      have hlast := hcs.not_mem hh (by decide)
      rw [Form.ReadRight, ← hm]
      cases hx with
      | inl hx => exact hx ▸ strtoul_prefix (d := 33) (by decide) (by decide) (by decide) hlast n
      | inr hx => exact hx ▸ strtoul_prefix (d := 33) (by decide) (by decide) (by decide) hlast n
  | @hexSuffix c cs _ hc hcs =>
      refine iff_of_true ?_ trivial
      obtain ⟨ds, hvalue, hread⟩ := hcs.digits
      have hbase : getNumBase (c :: cs ++ ['h']) = 16 := by
        rw [List.cons_append, getNumBase_of_isDigit hc, List.getLast?_concat, if_pos rfl]
      have hdigits : digitsValue 16 (digitsOf 16 (c :: (cs ++ ['h']))) = m := by
        rw [← List.cons_append, hread, digitsOf_cons_of_le hh (by decide), List.append_nil, hvalue]
      have hx : ∀ x, digitVal x = some 33 → (cs ++ ['h']).head? ≠ some x := by
        intro x hx hhead
        cases List.mem_append.mp (List.mem_of_head? hhead) with
        | inl hmem => exact hcs.not_mem hx (by decide) (List.mem_cons_of_mem c hmem)
        | inr hmem =>
            rw [List.mem_singleton.mp hmem, hh] at hx
            exact absurd hx (by decide)
      rw [hbase, List.cons_append, strtoul_eq_ofNat hc
        (fun _ => ⟨hx 'x' (by decide), hx 'X' (by decide)⟩) hdigits (hm ▸ hword),
        ofNat_eq_setWidth (hm ▸ hword), hm]
  | @octal cs _ hcs =>
      obtain ⟨v, hdec, heq, hle, hsq⟩ := hcs.octal_as_decimal
      obtain ⟨ds, hvalue, hread⟩ := hdec.digits
      have hdigits : digitsValue 10 (digitsOf 10 ('0' :: cs)) = v := by
        rw [digitsOf_cons (by decide : digitVal '0' = some 0) (by decide), digitsValue_zero_cons,
          ← List.append_nil cs, hread, digitsOf, List.append_nil, hvalue]
      have hlt : v < 2 ^ 64 := by
        calc v ≤ m * m := hsq
          _ < 2 ^ 32 * 2 ^ 32 := Nat.mul_lt_mul'' (hm ▸ hn) (hm ▸ hn)
          _ = 2 ^ 64 := by decide
      rw [strtoul_decimal v (by decide) (hcs.not_mem hh (by decide)) hdigits hlt, hm, heq,
        Form.ReadRight]
  | binary hb hcs =>
      have hlast := hcs.not_mem hh (by decide)
      rw [Form.ReadRight, ← hm]
      cases hb with
      | inl hb => exact hb ▸ strtoul_prefix (d := 11) (by decide) (by decide) (by decide) hlast n
      | inr hb => exact hb ▸ strtoul_prefix (d := 11) (by decide) (by decide) (by decide) hlast n
  | decimal hcs _ =>
      refine iff_of_true ?_ trivial
      obtain ⟨ds, hvalue, hread⟩ := hcs.digits
      obtain ⟨c, rest, rfl⟩ := List.exists_cons_of_ne_nil hcs.ne_nil
      obtain ⟨d, hc, hd⟩ := hcs.mem c List.mem_cons_self
      have hdigits : digitsValue 10 (digitsOf 10 (c :: rest)) = m := by
        rw [← List.append_nil (c :: rest), hread, digitsOf, List.append_nil, hvalue]
      have hlast : 'h' ∉ rest := fun hmem =>
        hcs.not_mem hh (by decide) (List.mem_cons_of_mem c hmem)
      rw [strtoul_decimal m (isDigit_of_digitVal hc hd) hlast hdigits (hm ▸ hword), hm]

/-- An octal number from 8 on, as `FX2LP_Open` reads it. -/
theorem spelling_iff_octal :
    Spelling .octal "010".toList (8 : UInt).toNat ∧
      (strtoul "010".toList (getNumBase "010".toList) = (8 : UInt).setWidth 64 ↔
        Form.octal.ReadRight (8 : UInt).toNat) := by
  have h : Spelling .octal "010".toList (8 : UInt).toNat :=
    .octal (@Numeral.snoc 8 ['1'] 1 '0' 0 (.digit (by decide) (by decide)) (by decide)
      (by decide))
  exact ⟨h, spelling_iff h⟩

/-- A documented spelling of a vendor id that is read as 0. -/
theorem not_spelling :
    ¬ ∀ (form : Form) (s : List Char) (n : UInt), Spelling form s n.toNat →
      strtoul s (getNumBase s) = n.setWidth 64 := by
  intro h
  have hnum : Numeral 16 "b4".toList (0xb4 : UInt).toNat :=
    @Numeral.snoc 16 ['b'] 11 '4' 4 (.digit (by decide) (by decide)) (by decide) (by decide)
  have hread := h .hex "0xb4".toList 0xb4 (.hex (.inl rfl) hnum)
  exact absurd hread (by decide +kernel)

/-- The example URI of the documentation names neither the vendor nor the product. -/
example : openCall "vid=0x04b4,pid=0x8613".toList = some (.vidPid, 0, 0) := by decide +kernel

end Smbusb
