import Smbusb.Host.HexDigits
import Smbusb.Host.HexLine

/-!
# Intel HEX records

What a record is, and what `parse_hex_line` reads from it.

A record is stated without the parser.  It is the list of its bytes, of which the last one makes
the sum 0 (`HexRecord.bytes`), and its line is a colon and the digits of the bytes, in either case
(`RecordLine`).  So every number of the record is a run of bytes, and stands at twice its place
behind the colon, whatever comes behind the line (`RecordAt.field`).

A conversion for a data byte stores an `int`, so it clears three of the bytes behind.  These are
bytes the loop has not come to yet, and the ones before it stay (`wp_dataByte_record`).  The last of
253 bytes is the last one for which the array has room for that.
-/

namespace Smbusb

open Logic Prog

/-! ## Records -/

/-- A record, without its type. -/
structure HexRecord where
  addr : Word
  data : List Byte
  /-- There is room for the bytes, and for what is stored behind them. -/
  fits : data.length ≤ 253

namespace HexRecord

variable (kind : Byte) (r : HexRecord)

/-- The length, the address, the type and the data. -/
def body : List Byte :=
  [BitVec.ofNat 8 r.data.length, (r.addr >>> 8).setWidth 8, r.addr.setWidth 8, kind] ++ r.data

/-- All bytes of the record, the checksum at the end. -/
def bytes : List Byte := body kind r ++ [-(body kind r).sum]

theorem length_body : (body kind r).length = 4 + r.data.length := by
  rw [body, List.length_append]
  rfl

theorem length_bytes : (bytes kind r).length = 5 + r.data.length := by
  rw [bytes, List.length_append, length_body, List.length_singleton]
  omega

theorem toNat_length : (BitVec.ofNat 8 r.data.length).toNat = r.data.length := by
  rw [BitVec.toNat_ofNat, Nat.mod_eq_of_lt (Nat.lt_of_le_of_lt r.fits (by decide))]

theorem toNat_high : ((r.addr >>> 8).setWidth 8).toNat = r.addr.toNat / 256 := by
  have hlt : r.addr.toNat < 2 ^ 16 := r.addr.isLt
  rw [BitVec.toNat_setWidth, BitVec.toNat_ushiftRight, Nat.shiftRight_eq_div_pow]
  omega

theorem toNat_low : (r.addr.setWidth 8).toNat = r.addr.toNat % 256 := BitVec.toNat_setWidth ..

/-- The bytes of a list, added up in a wider type. -/
theorem toNat_sum (bs : List Byte) : bs.sum.toNat = (bs.map BitVec.toNat).sum % 256 := by
  induction bs with
  | nil => rfl
  | cons b bs ih =>
      rw [List.sum_cons, BitVec.toNat_add, ih, List.map_cons, List.sum_cons, Nat.add_mod_mod]

/-- What is added up for the checksum, and the checksum. -/
theorem sum_bytes : (r.data.length + r.addr.toNat / 256 + r.addr.toNat % 256 + kind.toNat +
    (r.data.map BitVec.toNat).sum + (-(body kind r).sum).toNat) % 256 = 0 := by
  have hzero : (bytes kind r).sum = 0#8 := by
    rw [bytes, List.sum_append, List.sum_singleton, BitVec.add_right_neg]
  have hmod := toNat_sum (bytes kind r)
  rw [hzero, bytes] at hmod
  generalize -(body kind r).sum = checksum at hmod ⊢
  simp only [body, List.map_append, List.map_cons, List.map_nil, List.sum_append, List.sum_cons,
    List.sum_nil, toNat_length, toNat_high, toNat_low, BitVec.toNat_zero] at hmod
  omega

end HexRecord

/-- The line of a record. -/
def RecordLine (kind : Byte) (r : HexRecord) (line : List Char) : Prop :=
  ∃ digits, line = ':' :: digits ∧ AllHex digits ∧ digits.length % 2 = 0 ∧
    hexBytes digits = r.bytes kind

/-- The line of a record stands at an offset, with something behind it on the line. -/
def RecordAt (kind : Byte) (r : HexRecord) (heap : List Char) (line : Nat) : Prop :=
  ∃ digits extra, cString heap line = ':' :: digits ++ extra ∧ RecordLine kind r (':' :: digits)

/-! ## Conversions -/

theorem hexValue_spec {c : Char} (h : (hexValue c).isSome) :
    isSpace c = false ∧ c ≠ '-' ∧ c ≠ '+' ∧ c ≠ 'x' ∧ c ≠ 'X' := by
  refine ⟨?_, ?_, ?_, ?_, ?_⟩
  · obtain ⟨d, hd⟩ := Option.isSome_iff_exists.mp h
    have hrange := hexValue_eq_some.mp hd
    simp only [isSpace, Bool.or_eq_false_iff, beq_eq_false_iff_ne, Bool.and_eq_false_iff,
      decide_eq_false_iff_not]
    refine ⟨?_, Or.inr (by omega)⟩
    rintro rfl
    exact absurd h (by decide)
  all_goals
    rintro rfl
    exact absurd h (by decide)

/-- Digits that fill the width are read, whatever is behind them. -/
theorem sscanfHex_hex {cs : List Char} (hne : cs ≠ []) (h : AllHex cs) (rest : List Char) :
    sscanfHex cs.length (cs ++ rest) = .value (digitsValue 16 (hexValues cs) : Nat) := by
  obtain ⟨c, cs, rfl⟩ := List.exists_cons_of_ne_nil hne
  obtain ⟨hspace, hminus, hplus, -, -⟩ := hexValue_spec (allHex_cons.mp h).1
  have hskip : (c :: cs ++ rest).dropWhile isSpace = c :: cs ++ rest := by
    rw [List.cons_append, List.dropWhile_cons, hspace]
    rfl
  have hdigits : digitsOf 16 (c :: cs) = hexValues (c :: cs) := digitsOf_hex h
  have hstr : c :: cs ++ rest ≠ [] := List.cons_ne_nil _ _
  have hsome : hexValues (c :: cs) ≠ [] := List.cons_ne_nil _ _
  rw [sscanfHex, hskip, List.take_left]
  rw [if_neg hstr]
  split
  next negative field hsign =>
  obtain ⟨rfl, rfl⟩ : false = negative ∧ c :: cs = field := by
    split at hsign
    · next heq => exact absurd (List.cons.inj heq).1 hminus
    · next heq => exact absurd (List.cons.inj heq).1 hplus
    · exact Prod.mk.inj hsign
  extract_lets field value
  have hfield : field = c :: cs := by
    simp only [field]
    split
    · next x rest heq =>
      have hx := hexValue_spec ((heq ▸ h) x (by simp))
      exact if_neg (not_or.mpr hx.2.2.2)
    · rfl
  have hvalue : value = digitsValue 16 (hexValues (c :: cs)) := by
    rw [← hdigits, ← hfield]
  rw [hfield, hdigits, if_neg hsome, hvalue]
  rfl

/-- A string from one of its characters on. -/
theorem cString_add (heap : List Char) (pos k : Nat) (h : k ≤ (cString heap pos).length) :
    cString heap (pos + k) = (cString heap pos).drop k := by
  have hsplit : heap.drop pos =
      cString heap pos ++ (heap.drop pos).dropWhile (· != nul) :=
    List.takeWhile_append_dropWhile.symm
  have hmem : ∀ c ∈ (cString heap pos).drop k, (c != nul) = true := fun c hc =>
    List.mem_takeWhile_imp (p := fun c => c != nul) (List.mem_of_mem_drop hc)
  have hend : ((heap.drop pos).dropWhile (· != nul)).takeWhile (· != nul) = [] := by
    cases hrest : (heap.drop pos).dropWhile (· != nul) with
    | nil => rfl
    | cons c rest =>
        have hc := List.head?_dropWhile_not (· != nul) (heap.drop pos)
        rw [hrest] at hc
        rw [List.takeWhile_cons_of_neg (by simpa using hc)]
  rw [cString, ← List.drop_drop, hsplit, List.drop_append_of_le_length h,
    List.takeWhile_append_of_pos hmem, hend, List.append_nil]

/-! ## Fields -/

namespace RecordAt

variable {kind : Byte} {r : HexRecord} {heap : List Char} {line : Nat}

theorem head (h : RecordAt kind r heap line) : (cString heap line).head? = some ':' := by
  obtain ⟨digits, extra, hat, -⟩ := h
  rw [hat]
  rfl

theorem length (h : RecordAt kind r heap line) :
    11 + 2 * r.data.length ≤ (cString heap line).length := by
  obtain ⟨digits, extra, hat, digits', hdigits, -, -, hbytes⟩ := h
  obtain rfl := (List.cons.inj hdigits).2
  have hlen := length_hexBytes digits
  rw [hbytes, r.length_bytes] at hlen
  rw [hat, List.length_append, List.length_cons]
  omega

/-- A number that takes some of the bytes of the record. -/
theorem field (h : RecordAt kind r heap line) {i n : Nat} (hn : 0 < n)
    (hin : i + n ≤ 5 + r.data.length) : sscanfHex (2 * n) (cString heap (line + 1 + 2 * i)) =
      .value (bytesValue (((r.bytes kind).drop i).take n) : Nat) := by
  obtain ⟨digits, extra, hat, digits', hdigits, hhex, heven, hbytes⟩ := h
  obtain rfl := (List.cons.inj hdigits).2
  have hlen := length_hexBytes digits
  rw [hbytes, r.length_bytes] at hlen
  have hstr : cString heap (line + 1 + 2 * i) = (digits.drop (2 * i)).take (2 * n) ++
      ((digits.drop (2 * i)).drop (2 * n) ++ extra) := by
    have hle : 1 + 2 * i ≤ (cString heap line).length := by
      rw [hat, List.length_append, List.length_cons]
      omega
    rw [Nat.add_assoc, cString_add heap line _ hle, hat, Nat.add_comm 1, List.cons_append,
      List.drop_succ_cons, List.drop_append_of_le_length (by omega), ← List.append_assoc,
      List.take_append_drop]
  have hcount : ((digits.drop (2 * i)).take (2 * n)).length = 2 * n := by
    rw [List.length_take, List.length_drop]
    omega
  have hpart : AllHex ((digits.drop (2 * i)).take (2 * n)) := fun c hc =>
    hhex c (List.mem_of_mem_drop (List.mem_of_mem_take hc))
  have hne : (digits.drop (2 * i)).take (2 * n) ≠ [] := by
    intro hnil
    rw [hnil, List.length_nil] at hcount
    omega
  have hread := sscanfHex_hex hne hpart ((digits.drop (2 * i)).drop (2 * n) ++ extra)
  rw [hcount, digitsValue_hex hpart (by omega), hexBytes_take, hexBytes_drop, hbytes] at hread
  rw [hstr, hread]

/-- A number that takes one byte. -/
theorem byte (h : RecordAt kind r heap line) {i : Nat} {b : Byte}
    (hb : (r.bytes kind)[i]? = some b) :
    sscanfHex 2 (cString heap (line + 1 + 2 * i)) = .value b.toNat := by
  obtain ⟨hi, -⟩ := List.getElem?_eq_some_iff.mp hb
  rw [r.length_bytes] at hi
  have hfield := h.field Nat.one_pos hi
  have hone : ((r.bytes kind).drop i).take 1 = [b] := by
    rw [List.take_one, List.head?_drop, hb]
    rfl
  rw [hone] at hfield
  exact hfield.trans (by simp [bytesValue])

theorem len (h : RecordAt kind r heap line) :
    sscanfHex 2 (cString heap (line + 1)) = .value (r.data.length : Nat) := by
  have hbyte := h.byte (i := 0) rfl
  rwa [r.toNat_length] at hbyte

theorem addr (h : RecordAt kind r heap line) :
    sscanfHex 4 (cString heap (line + 3)) = .value r.addr.toNat := by
  have hfield := h.field (i := 1) (n := 2) (by decide) (by omega)
  have hvalue : bytesValue [(r.addr >>> 8).setWidth 8, r.addr.setWidth 8] = r.addr.toNat := by
    simp only [bytesValue, List.foldl_cons, List.foldl_nil, r.toNat_high, r.toNat_low]
    omega
  rw [← hvalue]
  exact hfield

theorem code (h : RecordAt kind r heap line) :
    sscanfHex 2 (cString heap (line + 7)) = .value kind.toNat := h.byte (i := 3) rfl

theorem data (h : RecordAt kind r heap line) {k : Nat} {b : Byte} (hb : r.data[k]? = some b) :
    sscanfHex 2 (cString heap (line + 9 + 2 * k)) = .value b.toNat := by
  have hk := (List.getElem?_eq_some_iff.mp hb).1
  have hplace : (r.bytes kind)[4 + k]? = some b := by
    rw [HexRecord.bytes, List.getElem?_append_left (by rw [r.length_body]; omega), HexRecord.body,
      List.getElem?_append_right (by simp)]
    simpa using hb
  have hbyte := h.byte hplace
  rwa [show line + 1 + 2 * (4 + k) = line + 9 + 2 * k by omega] at hbyte

theorem checksum (h : RecordAt kind r heap line) :
    sscanfHex 2 (cString heap (line + 9 + 2 * r.data.length)) =
      .value (-(r.body kind).sum).toNat := by
  have hplace : (r.bytes kind)[4 + r.data.length]? = some (-(r.body kind).sum) := by
    rw [HexRecord.bytes, ← r.length_body kind, List.getElem?_concat_length]
  have hbyte := h.byte hplace
  rwa [show line + 1 + 2 * (4 + r.data.length) = line + 9 + 2 * r.data.length by omega] at hbyte

end RecordAt

/-! ## The parser on a record -/

namespace HexLine

variable {kind : Byte} {r : HexRecord} {heap : List Char} {line : Nat} (junk : Junk)

/-- The variables hold the head of the record. -/
structure HoldsHead (kind : Byte) (r : HexRecord) (v : HexVars) : Prop where
  addr : v.addr = r.addr.toNat
  code : v.code = kind.toNat

theorem wp_head_record (h : RecordAt kind r heap line) (v : HexVars) :
    wp (head heap line junk)
      (fun len v' => len = (r.data.length : Nat) ∧ v'.num = 0 ∧ HoldsHead kind r v')
      (fun _ _ => False) v := by
  have hlength := h.length
  simp only [head, wp_bind, wp_modify, wp_ite, wp_goto, wp_get, h.head, h.len, h.addr, h.code, scan,
    wp_pure]
  rw [if_neg (not_not.mpr rfl), if_neg (by omega), if_neg (by omega)]
  exact ⟨trivial, trivial, rfl, rfl⟩

/-- The loop has come to the byte `k`. -/
structure AtRecordByte (kind : Byte) (r : HexRecord) (line k : Nat) (x : Nat × Int)
    (v : HexVars) : Prop extends HoldsHead kind r v where
  ptr : x.1 = line + 9 + 2 * k
  sum : x.2 = (r.data.length + r.addr.toNat / 256 + r.addr.toNat % 256 + kind.toNat +
    ((r.data.take k).map BitVec.toNat).sum : Nat)
  num : v.num = k
  bytes : v.bytes.read 0 k = r.data.take k

/-- A turn of the loop.  What it stores behind the byte is not read. -/
theorem wp_dataByte_record (h : RecordAt kind r heap line) {k : Nat} (hk : k < r.data.length)
    {x : Nat × Int} {v : HexVars} (hat : AtRecordByte kind r line k x v) :
    wp (dataByte heap x) (AtRecordByte kind r line (k + 1)) (fun _ _ => False) v := by
  obtain ⟨ptr, sum⟩ := x
  obtain ⟨⟨haddr, hcode⟩, rfl, rfl, rfl, hbytes⟩ := hat
  have hbyte : r.data[v.num]? = some r.data[v.num] := List.getElem?_eq_getElem hk
  have htake : r.data.take (v.num + 1) = r.data.take v.num ++ [r.data[v.num]] :=
    (List.take_append_getElem hk).symm
  have hstored : v.bytes.write v.num (intBytes r.data[v.num].toNat) v.num = r.data[v.num] := by
    simp [intBytes, List.range_succ]
  have hkept : (v.bytes.write v.num (intBytes r.data[v.num].toNat)).read 0 v.num =
      v.bytes.read 0 v.num :=
    Mem.read_write_of_disjoint v.bytes (.inl (Nat.zero_add _).le)
  have hfits := r.fits
  simp only [dataByte, h.data hbyte, wp_bind, wp_modify, wp_get, wp_ite, wp_goto, wp_pure, hstored]
  rw [if_neg (by omega)]
  refine ⟨⟨haddr, hcode⟩, rfl, ?_, rfl, ?_⟩
  · rw [htake, List.map_append, List.sum_append, List.map_singleton, List.sum_singleton]
    omega
  · rw [Mem.read_succ, hkept, hbytes, htake, Nat.zero_add]
    exact congrArg _ (congrArg (fun b => [b]) hstored)

theorem wp_tail_record (h : RecordAt kind r heap line) {v : HexVars} (hnum : v.num = 0)
    (hhead : HoldsHead kind r v) : wp (tail heap line junk (r.data.length : Nat))
      (fun _ v' => HoldsHead kind r v' ∧ v'.bytes.read 0 v'.num = r.data)
      (fun _ _ => False) v := by
  have hsum := r.sum_bytes kind
  have hfits := r.fits
  have hkind : kind.toNat < 256 := kind.isLt
  have haddr : r.addr.toNat < 65536 := r.addr.isLt
  simp only [tail, wp_bind, wp_get]
  refine wp_whileLoop (AtRecordByte kind r line) r.data.length ?_ ?_ (by omega) ?_
  · intro k hk x v₁ hat
    refine ⟨?_, wp_dataByte_record h hk hat⟩
    rw [hat.num, decide_eq_true_eq]
    omega
  · rintro ⟨ptr, sum⟩ v₁ ⟨hhead₁, rfl, rfl, hnum₁, hbytes⟩
    rw [List.take_length] at hbytes
    refine ⟨by simp [hnum₁], ?_⟩
    simp only [h.checksum, scan, wp_pure, wp_ite, wp_goto, List.take_length]
    rw [if_neg (by omega)]
    exact ⟨hhead₁, by rw [hnum₁, hbytes]⟩
  · refine ⟨hhead, rfl, ?_, hnum, rfl⟩
    rw [hhead.addr, hhead.code]
    simp
    omega

end HexLine

/-- `parse_hex_line` accepts the line of a record, and gives the record. -/
theorem parseHexLine_record {kind : Byte} {r : HexRecord} {heap : List Char} {line : Nat}
    (h : RecordAt kind r heap line) (junk : Junk) (v : HexVars) :
    ∃ v', parseHexLine heap line junk v = (true, v') ∧ v'.code = kind.toNat ∧
      v'.addr = r.addr.toNat ∧ v'.bytes.read 0 v'.num = r.data := by
  have hwp : wp (do
      let len ← HexLine.head heap line junk
      HexLine.tail heap line junk len)
      (fun _ v' => HexLine.HoldsHead kind r v' ∧ v'.bytes.read 0 v'.num = r.data)
      (fun _ _ => False) v := by
    rw [wp_bind]
    refine wp_mono (HexLine.wp_head_record junk h v) ?_ (fun _ _ h => h)
    rintro _ v₁ ⟨rfl, hnum, hhead⟩
    exact HexLine.wp_tail_record junk h hnum hhead
  obtain ⟨⟨⟩, v', hrun, hhead, hdata⟩ := exists_run_of_wp hwp
  exact ⟨v', by simp only [parseHexLine, hrun], hhead.code, hhead.addr, hdata⟩

end Smbusb
