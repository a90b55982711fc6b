import Smbusb.Logic.Memory
import Smbusb.Host.Numbers

/-!
# The lines of a firmware file

`parse_hex_line` of `fxloader.c`, which reads a record of an Intel HEX file: `:`, the number
of data bytes, the address, the type, the data and a checksum, all in hex digits.

*`sscanf`.*  `sscanfHex` is one conversion `%x` with a field width.  It skips white space,
which the width does not count, and takes a sign and a prefix.  At the end of the string
it stores nothing and returns `EOF`, which `parse_hex_line` takes for success.  So a number
may stay what it was: the `len` and the `cksum` of the call are uninitialised, and `addr`
and `code` are those of the line before.

*Memory.*  A line is an offset into `heap`.  `ptr` moves two characters for each conversion,
so when `len` is negative it runs past the end of the line, and what it reads there is in
`heap` too.  A conversion stores an `int`, so the one for `bytes[num]` stores four bytes, the
low one first.  `bytes` has 256 bytes; what is stored behind it hits no other variable.
-/

namespace Smbusb

open Logic Prog

/-! ## Numbers -/

/-- What `sscanf` finds. -/
inductive Scanned where
  /-- The end of the string. -/
  | eof
  /-- Something that is not a number. -/
  | failure
  | value (n : Int)
deriving DecidableEq, Repr

/-- `sscanf(str, "%0wx", ..)` for the width `w`. -/
def sscanfHex (w : Nat) (str : List Char) : Scanned :=
  let str := str.dropWhile isSpace
  if str = [] then .eof
  else
    let (negative, field) := match str.take w with
      | '-' :: rest => (true, rest)
      | '+' :: rest => (false, rest)
      | field => (false, field)
    -- Behind a prefix there has to be a digit.
    let field := match field with
      | '0' :: x :: rest => if x = 'x' ∨ x = 'X' then rest else field
      | _ => field
    let value : Nat := digitsValue 16 (digitsOf 16 field)
    if digitsOf 16 field = [] then .failure else .value (if negative then -value else value)

/-- The bytes of an `int` in memory. -/
def intBytes (n : Int) : List Byte :=
  (List.range 4).map fun k => BitVec.ofInt 8 (n / 256 ^ k)

/-! ## The parser -/

/-- What the calls for the lines of a file share. -/
structure HexVars where
  bytes : Mem Byte
  addr : Int
  num : Nat
  code : Int

/-- What the uninitialised locals of a call of `parse_hex_line` hold. -/
structure Junk where
  len : Int
  cksum : Int

/-- A part of `parse_hex_line`.  A jump is its `return 0`. -/
abbrev HexLine := Prog Unit HexVars

namespace HexLine

/-- `if (!sscanf(..)) return 0;` for a variable that holds `old`. -/
def scan (scanned : Scanned) (old : Int) : HexLine Int :=
  match scanned with
  | .eof => pure old
  | .failure => goto ()
  | .value n => pure n

/-- One turn of the loop, over `ptr` and `sum`. -/
def dataByte (heap : List Char) : Nat × Int → HexLine (Nat × Int) := fun (ptr, sum) => do
  match sscanfHex 2 (cString heap ptr) with
  | .eof => pure ()
  | .failure => goto ()
  | .value n => modify fun v => { v with bytes := v.bytes.write v.num (intBytes n) }
  let sum := sum + ((← get).bytes (← get).num).toNat
  modify fun v => { v with num := v.num + 1 }
  if 256 ≤ (← get).num then goto () else pure (ptr + 2, sum)

/-- The checks of the head of a line, up to the type.  Gives `len`. -/
def head (heap : List Char) (line : Nat) (junk : Junk) : HexLine Int := do
  let theline := cString heap line
  modify fun v => { v with num := 0 }
  if theline.head? ≠ some ':' then goto ()
  else if theline.length < 11 then goto ()
  else
    let len ← scan (sscanfHex 2 (cString heap (line + 1))) junk.len
    -- `strlen` is unsigned, and larger than any length is what a negative `int` becomes.
    if 11 + len * 2 < 0 ∨ theline.length < 11 + len * 2 then goto ()
    else
      let addr ← scan (sscanfHex 4 (cString heap (line + 3))) (← get).addr
      modify fun v => { v with addr }
      let code ← scan (sscanfHex 2 (cString heap (line + 7))) (← get).code
      modify fun v => { v with code }
      pure len

/-- The data and the checksum. -/
def tail (heap : List Char) (line : Nat) (junk : Junk) (len : Int) : HexLine Unit := do
  let v ← get
  let sum := len % 256 + v.addr / 256 % 256 + v.addr % 256 + v.code % 256
  let (ptr, sum) ← whileLoop (fun _ v => decide ((v.num : Int) ≠ len)) (dataByte heap) 257
    (line + 9, sum)
  let cksum ← scan (sscanfHex 2 (cString heap ptr)) junk.cksum
  if (sum % 256 + cksum % 256) % 256 ≠ 0 then goto () else pure ()

end HexLine

/-- `parse_hex_line`: whether it returns 1, and what it leaves in the variables. -/
def parseHexLine (heap : List Char) (line : Nat) (junk : Junk) (v : HexVars) : Bool × HexVars :=
  let parse : HexLine Unit := do
    let len ← HexLine.head heap line junk
    HexLine.tail heap line junk len
  match parse v with
  | .ok _ v' => (true, v')
  | .error _ v' => (false, v')

/-! ## What is accepted -/

/-- The sum of the bytes of a record before its checksum. -/
def HexVars.total (v : HexVars) (len : Int) : Int :=
  len % 256 + v.addr / 256 % 256 + v.addr % 256 + v.code % 256 +
    ((v.bytes.read 0 v.num).map BitVec.toNat).sum

/-- A line that is accepted: it starts with a colon, is as long as its length says, and its
checksum is right.  A checksum the line has no digits for is what the variable held. -/
structure Accepted (heap : List Char) (line : Nat) (junk : Junk) (v : HexVars) : Prop where
  colon : (cString heap line).head? = some ':'
  length : 11 + 2 * v.num ≤ (cString heap line).length
  fits : v.num < 256
  checksum : ∃ cksum, (sscanfHex 2 (cString heap (line + 9 + 2 * v.num)) = .value cksum ∨
      sscanfHex 2 (cString heap (line + 9 + 2 * v.num)) = .eof ∧ cksum = junk.cksum) ∧
    (v.total v.num + cksum) % 256 = 0

namespace HexLine

variable {heap : List Char} {line : Nat} {junk : Junk}

theorem wp_scan {Q : Int → HexVars → Prop} {E : Unit → HexVars → Prop} {v : HexVars}
    (scanned : Scanned) (old : Int) (hE : E () v)
    (hQ : ∀ n, scanned = .value n ∨ scanned = .eof ∧ n = old → Q n v) :
    wp (scan scanned old) Q E v := by
  cases scanned with
  | eof => exact hQ old (.inr ⟨rfl, rfl⟩)
  | failure => exact hE
  | value n => exact hQ n (.inl rfl)

/-- The loop is at the digits of the byte `num`, and has added up the ones before. -/
structure AtByte (line : Nat) (len : Int) (x : Nat × Int) (v : HexVars) : Prop where
  ptr : x.1 = line + 9 + 2 * v.num
  sum : x.2 = v.total len
  fits : v.num < 256

theorem wp_dataByte (len : Int) {x : Nat × Int} {v : HexVars} (h : AtByte line len x v) :
    wp (dataByte heap x) (fun y v' => AtByte line len y v' ∧ v'.num = v.num + 1)
      (fun _ _ => True) v := by
  obtain ⟨ptr, sum⟩ := x
  -- whether a byte was stored or not, the bytes before it are the same
  have hnext : ∀ v₁ : HexVars, v₁.num = v.num → v₁.total len = v.total len →
      wp (do
        let sum := sum + ((← get).bytes (← get).num).toNat
        modify fun v => { v with num := v.num + 1 }
        if 256 ≤ (← get).num then goto () else pure (ptr + 2, sum) : HexLine (Nat × Int))
        (fun y v' => AtByte line len y v' ∧ v'.num = v.num + 1) (fun _ _ => True) v₁ := by
    intro v₁ hnum htotal
    simp only [wp_bind, wp_get, wp_modify, wp_ite, wp_goto, wp_pure]
    split
    · trivial
    · next hfits =>
      refine ⟨⟨?_, ?_, Nat.lt_of_not_le hfits⟩, by rw [hnum]⟩
      · have hptr : ptr = line + 9 + 2 * v.num := h.ptr
        dsimp only
        omega
      · have hsum : sum = v.total len := h.sum
        rw [hsum, ← htotal]
        simp [HexVars.total, Mem.read_succ, Int.add_assoc]
  rw [dataByte]
  cases sscanfHex 2 (cString heap ptr) with
  | eof => exact hnext v rfl rfl
  | failure => trivial
  | value n =>
      refine hnext { v with bytes := v.bytes.write v.num (intBytes n) } rfl ?_
      have hread : (v.bytes.write v.num (intBytes n)).read 0 v.num = v.bytes.read 0 v.num :=
        Mem.read_congr fun i hi => Mem.write_of_lt _ _ (by omega)
      simp only [HexVars.total, hread]

theorem wp_head (v : HexVars) : wp (head heap line junk)
    (fun len v' => (cString heap line).head? = some ':' ∧ v'.num = 0 ∧ 0 ≤ 11 + len * 2 ∧
      11 + len * 2 ≤ (cString heap line).length) (fun _ _ => True) v := by
  simp only [head, wp_bind, wp_modify, wp_ite, wp_goto]
  split
  · trivial
  · next hcolon =>
    split
    · trivial
    · refine wp_scan _ _ trivial fun len _ => ?_
      split
      · trivial
      · next hlen =>
        simp only [wp_get]
        refine wp_scan _ _ trivial fun addr _ => ?_
        dsimp only
        refine wp_scan _ _ trivial fun code _ => ?_
        exact ⟨Classical.not_not.mp hcolon, rfl, by omega, by omega⟩

theorem wp_tail {len : Int} {v : HexVars} (hcolon : (cString heap line).head? = some ':')
    (hnum : v.num = 0) (hlen : 11 + len * 2 ≤ (cString heap line).length) :
    wp (tail heap line junk len) (fun _ v' => Accepted heap line junk v') (fun _ _ => True) v := by
  have hstart : AtByte line len (line + 9, v.total len) v :=
    ⟨by rw [hnum], rfl, by rw [hnum]; decide⟩
  have hsum : v.total len = len % 256 + v.addr / 256 % 256 + v.addr % 256 + v.code % 256 := by
    simp [HexVars.total, hnum, Mem.read]
  rw [hsum] at hstart
  simp only [tail, wp_bind, wp_get]
  refine wp_whileLoop_variant (AtByte line len) (fun _ v => 256 - v.num) ?_ ?_ ?_ hstart
  · intro x v₁ hat _
    refine wp_mono (wp_dataByte len hat) (fun y v₂ h => ⟨h.1, ?_⟩) (fun _ _ h => h)
    have := hat.fits
    omega
  · rintro ⟨ptr, sum⟩ v₁ hat hend
    have hdone : (v₁.num : Int) = len := by simpa using hend
    refine wp_scan _ _ trivial fun cksum hcksum => ?_
    simp only [wp_ite, wp_goto, wp_pure]
    split
    · trivial
    · next hzero =>
      have hptr : ptr = line + 9 + 2 * v₁.num := hat.ptr
      have htotal : sum = v₁.total v₁.num := by
        rw [hdone]
        exact hat.sum
      rw [hptr] at hcksum
      refine ⟨hcolon, by omega, hat.fits, cksum, hcksum, ?_⟩
      rw [← htotal]
      omega
  · omega

end HexLine

/-- What `parse_hex_line` accepts is a record. -/
theorem parseHexLine_accepted {heap : List Char} {line : Nat} {junk : Junk} {v v' : HexVars}
    (h : parseHexLine heap line junk v = (true, v')) : Accepted heap line junk v' := by
  have hwp : wp (do
      let len ← HexLine.head heap line junk
      HexLine.tail heap line junk len) (fun _ v' => Accepted heap line junk v')
      (fun _ _ => True) v := by
    rw [wp_bind]
    refine wp_mono (HexLine.wp_head v) (fun len v₁ h₁ => ?_) (fun _ _ h => h)
    exact HexLine.wp_tail h₁.1 h₁.2.1 h₁.2.2.2
  simp only [parseHexLine] at h
  rw [wp] at hwp
  split at h
  · next hrun =>
    rw [hrun] at hwp
    obtain ⟨-, rfl⟩ := Prod.mk.inj h
    exact hwp
  · exact absurd (congrArg Prod.fst h) Bool.false_ne_true

end Smbusb
