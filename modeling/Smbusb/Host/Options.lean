import Smbusb.Host.Fx2lp

/-!
# The options of a device URI

`OptDictProcess`, `GetNumBase` and the part of `FX2LP_Open` that looks at the options.

*Strings.*  A C string is the list of its characters, without the NUL.  `strtok_r` cuts
a string in place, so `OptDictProcess` works on `storage`, which holds the characters
and a NUL at the end, and what it hands out are offsets into `storage`.  `cString` is
the string at an offset.

*The C library.*  `strtokR` is `strtok_r` for one delimiter.  `strtoul` is that of C11
for the bases `GetNumBase` gives, with an `unsigned long` of 64 bits.  Memory is taken
not to run out, so `strdup` and `realloc` succeed.
-/

namespace Smbusb

/-- The character `'\0'`. -/
def nul : Char := Char.ofNat 0

/-- The string at an offset of `storage`. -/
def cString (storage : List Char) (pos : Nat) : List Char :=
  (storage.drop pos).takeWhile (· != nul)

/-! ## Splitting -/

/-- `strtok_r`, from the offset `pos` on: the offset of the token and where to go on. -/
def strtokR (delim : Char) (storage : List Char) (pos : Nat) : Option (Nat × Nat) × List Char :=
  let start := pos + ((storage.drop pos).takeWhile (· == delim)).length
  let stop := start + ((storage.drop start).takeWhile fun c => c != delim && c != nul).length
  if stop = start then (none, storage)
  else if storage[stop]? = some delim then (some (start, stop + 1), storage.set stop nul)
  else (some (start, stop), storage)

/-- `struct OptDictItem`. -/
structure OptDictItem where
  key : Option Nat
  val : Option Nat
deriving DecidableEq, Repr

/-- `struct OptDict`; `count` is the number of items. -/
structure OptDict where
  items : List OptDictItem
  storage : List Char
deriving DecidableEq, Repr

/-- The inner loop of `OptDictProcess`. -/
def optDictItem : Nat → Nat → OptDictItem → List Char → OptDictItem × List Char
  | 0, _, item, storage => (item, storage)
  | fuel + 1, pos, item, storage =>
      match strtokR '=' storage pos with
      | (none, storage) => (item, storage)
      | (some (subtoken, saveptr), storage) =>
          if item.key = none then
            optDictItem fuel saveptr { item with key := some subtoken } storage
          else if item.val = none then
            optDictItem fuel saveptr { item with val := some subtoken } storage
          -- The delimiter in front of a third part is put back.
          else optDictItem fuel saveptr item (storage.set (subtoken - 1) '=')

/-- The outer loop of `OptDictProcess`. -/
def optDictItems : Nat → Nat → List OptDictItem → List Char → OptDict
  | 0, _, items, storage => ⟨items, storage⟩
  | fuel + 1, pos, items, storage =>
      match strtokR ',' storage pos with
      | (none, storage) => ⟨items, storage⟩
      | (some (token, saveptr), storage) =>
          let (item, storage) := optDictItem (storage.length + 1) token ⟨none, none⟩ storage
          optDictItems fuel saveptr (items ++ [item]) storage

/-- `OptDictProcess`. -/
def optDictProcess (driverOps : List Char) : OptDict :=
  let storage := driverOps ++ [nul]
  optDictItems (storage.length + 1) 0 [] storage

/-! ### Fuel

Every turn of either loop takes a character at least, so fuel for one turn more than
`storage` has characters is enough. -/

section Fuel

variable {delim : Char} {storage storage' : List Char} {pos token saveptr : Nat}

/-- A token is not empty, and `storage` keeps its length. -/
theorem strtokR_some (h : strtokR delim storage pos = (some (token, saveptr), storage')) :
    pos ≤ token ∧ token < saveptr ∧ saveptr ≤ storage.length ∧
      storage'.length = storage.length := by
  simp only [strtokR] at h
  generalize hskip : ((storage.drop pos).takeWhile (· == delim)).length = skip at h
  generalize hlen : ((storage.drop (pos + skip)).takeWhile
    fun c => c != delim && c != nul).length = len at h
  have hle : len ≤ storage.length - (pos + skip) := by
    rw [← hlen, ← List.length_drop]
    exact (List.takeWhile_prefix _).length_le
  split at h
  · simp at h
  · split at h
    · next hne hdelim =>
      obtain ⟨⟨rfl, rfl⟩, rfl⟩ : (pos + skip = token ∧ pos + skip + len + 1 = saveptr) ∧
          storage.set (pos + skip + len) nul = storage' := by simpa using h
      have hlt := (List.getElem?_eq_some_iff.mp hdelim).1
      exact ⟨by omega, by omega, by omega, List.length_set⟩
    · next hne hdelim =>
      obtain ⟨⟨rfl, rfl⟩, rfl⟩ : (pos + skip = token ∧ pos + skip + len = saveptr) ∧
          storage = storage' := by simpa using h
      exact ⟨by omega, by omega, by omega, rfl⟩

theorem strtokR_none (h : strtokR delim storage pos = (none, storage')) : storage' = storage := by
  simp only [strtokR] at h
  split at h
  · simpa using h.symm
  · split at h <;> simp at h

theorem length_optDictItem (fuel pos : Nat) (item : OptDictItem) (storage : List Char) :
    (optDictItem fuel pos item storage).2.length = storage.length := by
  induction fuel generalizing pos item storage with
  | zero => rfl
  | succ fuel ih =>
      rw [optDictItem]
      split
      · next h => rw [strtokR_none h]
      · next h =>
        obtain ⟨-, -, -, hlen⟩ := strtokR_some h
        split
        · rw [ih, hlen]
        · split
          · rw [ih, hlen]
          · rw [ih, List.length_set, hlen]

/-- The inner loop does not see how much fuel it has left. -/
theorem optDictItem_fuel {fuel fuel' pos : Nat} (item : OptDictItem) (storage : List Char)
    (h : storage.length - pos < fuel) (h' : storage.length - pos < fuel') :
    optDictItem fuel pos item storage = optDictItem fuel' pos item storage := by
  induction fuel generalizing fuel' pos item storage with
  | zero => exact absurd h (Nat.not_lt_zero _)
  | succ fuel ih =>
      cases fuel' with
      | zero => exact absurd h' (Nat.not_lt_zero _)
      | succ fuel' =>
          rw [optDictItem, optDictItem]
          split
          · rfl
          · next htok =>
            obtain ⟨hpos, hlt, hle, hlen⟩ := strtokR_some htok
            split
            · exact ih _ _ (by omega) (by omega)
            · split
              · exact ih _ _ (by omega) (by omega)
              · exact ih _ _ (by rw [List.length_set]; omega) (by rw [List.length_set]; omega)

/-- Nor does the outer loop. -/
theorem optDictItems_fuel {fuel fuel' pos : Nat} (items : List OptDictItem) (storage : List Char)
    (h : storage.length - pos < fuel) (h' : storage.length - pos < fuel') :
    optDictItems fuel pos items storage = optDictItems fuel' pos items storage := by
  induction fuel generalizing fuel' pos items storage with
  | zero => exact absurd h (Nat.not_lt_zero _)
  | succ fuel ih =>
      cases fuel' with
      | zero => exact absurd h' (Nat.not_lt_zero _)
      | succ fuel' =>
          rw [optDictItems, optDictItems]
          split
          · rfl
          · next token saveptr storage' htok =>
            obtain ⟨hpos, hlt, hle, hlen⟩ := strtokR_some htok
            have hitem := length_optDictItem (storage'.length + 1) token ⟨none, none⟩ storage'
            generalize optDictItem (storage'.length + 1) token ⟨none, none⟩ storage' = r at hitem ⊢
            obtain ⟨item, storage''⟩ := r
            simp only at hitem ⊢
            exact ih _ _ (by omega) (by omega)

end Fuel

/-! ## Numbers -/

/-- `GetNumBase`. -/
def getNumBase (numStr : List Char) : Nat :=
  let len := numStr.length
  let ch := fun i => numStr.getD i nul
  if len = 0 then 10
  -- The source compares the first character with 0, not with '0'.
  else if 3 ≤ len ∧ ch 0 = nul ∧ (ch 1 = 'x' ∨ ch 1 = 'X') then 16
  else if 3 ≤ len ∧ ch 0 = nul ∧ (ch 1 = 'b' ∨ ch 1 = 'B') then 2
  else if 2 ≤ len ∧ ch 0 = nul ∧ ch (len - 1) ≠ 'h' then 8
  else if 2 ≤ len ∧ ch (len - 1) = 'h' then 16
  else 10

/-- `isspace`, in the C locale. -/
def isSpace (c : Char) : Bool := c == ' ' || (9 ≤ c.toNat && c.toNat ≤ 13)

/-- The value of a digit in some base up to 36. -/
def digitVal (c : Char) : Option Nat :=
  if c.isDigit then some (c.toNat - '0'.toNat)
  else if c.isLower then some (c.toNat - 'a'.toNat + 10)
  else if c.isUpper then some (c.toNat - 'A'.toNat + 10)
  else none

/-- The digits in front of the first character that is not one. -/
def digitsOf (base : Nat) : List Char → List Nat
  | [] => []
  | c :: cs =>
      match digitVal c with
      | some d => if d < base then d :: digitsOf base cs else []
      | none => []

/-- `strtoul(str, NULL, base)`. -/
def strtoul (str : List Char) (base : Nat) : BitVec 64 :=
  let str := str.dropWhile isSpace
  let (negative, str) := match str with
    | '-' :: rest => (true, rest)
    | '+' :: rest => (false, rest)
    | _ => (false, str)
  let str := match str with
    | '0' :: x :: rest =>
        -- A prefix is one only in front of a digit.
        if base = 16 ∧ (x = 'x' ∨ x = 'X') ∧ digitsOf 16 rest ≠ [] then rest else str
    | _ => str
  let value := (digitsOf base str).foldl (fun n d => n * base + d) 0
  if 2 ^ 64 ≤ value then BitVec.allOnes 64
  else if negative then -BitVec.ofNat 64 value else BitVec.ofNat 64 value

/-- A value of an option, as `FX2LP_Open` reads it. -/
def optionNumber (val : List Char) : UInt := (strtoul val (getNumBase val)).setWidth 32

/-! ## The options of FX2LP -/

/-- The routines `FX2LP_Open` chooses from. -/
inductive OpenRoutine where
  /-- `FX2LP_SMBOpenDeviceVIDPID`. -/
  | vidPid
  /-- `FX2LP_SMBOpenDeviceBusAddr`. -/
  | busAddr
deriving DecidableEq, Repr

/-- The locals of `FX2LP_Open`. -/
structure OpenVars where
  /-- `open`. -/
  routine : Option OpenRoutine
  arg0 : UInt
  arg1 : UInt
deriving DecidableEq, Repr

/-- The loop of `FX2LP_Open`; no result is `goto cleanup`. -/
def openOptions (storage : List Char) : List OptDictItem → OpenVars → Option OpenVars
  | [], v => some v
  | ⟨some key, some val⟩ :: items, v =>
      let key := cString storage key
      let num := optionNumber (cString storage val)
      if key = "vid".toList then
        if v.routine = some .busAddr then none
        else openOptions storage items { v with routine := some .vidPid, arg0 := num }
      else if key = "pid".toList then
        if v.routine = some .busAddr then none
        else openOptions storage items { v with routine := some .vidPid, arg1 := num }
      else if key = "bus".toList then
        if v.routine = some .vidPid then none
        else openOptions storage items { v with routine := some .busAddr, arg0 := num }
      else if key = "addr".toList then
        if v.routine = some .vidPid then none
        else openOptions storage items { v with routine := some .busAddr, arg1 := num }
      else none
  -- An item without a key or a value ends the loop.
  | _ :: _, v => some v

/-- `(unsigned int)-1`, an argument that was not given. -/
def notGiven : UInt := -1

/-- What `FX2LP_Open` calls, and with what; no result if it returns -1 without a call. -/
def openCall (deviceOps : List Char) : Option (OpenRoutine × UInt × UInt) :=
  let opts := optDictProcess deviceOps
  if opts.items.length ≠ 2 then none
  else
    match openOptions opts.storage opts.items ⟨none, notGiven, notGiven⟩ with
    | some ⟨some routine, arg0, arg1⟩ =>
        if arg0 = notGiven ∨ arg1 = notGiven then none else some (routine, arg0, arg1)
    | _ => none

end Smbusb
