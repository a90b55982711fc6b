import Smbusb.Host.HexRecords
import Smbusb.Host.OptionGrammar
import Smbusb.Host.Upload

/-!
# The upload of a file of records

What `CypressUploadIhxFirmware` does with a firmware file as it should be: lines of data records,
then the line of an end-of-file record, then any text (`HexFile`).

*Lines.*  `strtok` puts a NUL behind each line and leaves the rest of the copy alone.  So the lines
it gives are those of the records, in order, up to the line that ends the file (`lines_of_file`).
What comes behind on that line is not looked at, and the lines after it are not parsed.

*Transfers.*  A failure ends the upload at once.  `SendsOrFails` says of a list of transfers what
is sent of it and with what result, with nothing of the files or of the parser.  For any file the
upload is the list `fileTransfers` of what its lines leave in the variables, in their order
(`upload_sends`), so it stops at the first of them that fails.  For a file of records these are
the transfers for the records (`fileTransfers_records`).
-/

namespace Smbusb

open Logic Prog

/-! ## Files -/

/-- The text of a file for these data records. -/
inductive HexFile : List HexRecord → List Char → Prop
  /-- The end-of-file record, and any text. -/
  | eof {r : HexRecord} {line : List Char} (text : List Char) :
      RecordLine 1 r line → HexFile [] (line ++ text)
  | record {r : HexRecord} {rs : List HexRecord} {line rest : List Char} :
      RecordLine 0 r line → HexFile rs rest → HexFile (r :: rs) (line ++ '\n' :: rest)
  /-- An empty line. -/
  | newline {rs : List HexRecord} {rest : List Char} :
      HexFile rs rest → HexFile rs ('\n' :: rest)

/-- What `strtok` gives for a file: the lines of its records, and an end-of-file record. -/
def LinesOf : List HexRecord → List (Nat × List Char) → Prop
  | [], ls => ∃ r l ls', ls = l :: ls' ∧ RecordAt 1 r l.2 l.1
  | r :: rs, ls => ∃ l ls', ls = l :: ls' ∧ RecordAt 0 r l.2 l.1 ∧ LinesOf rs ls'

/-- A line has neither a line feed nor a NUL in it. -/
theorem RecordLine.plain {kind : Byte} {r : HexRecord} {line : List Char}
    (h : RecordLine kind r line) : line ≠ [] ∧ '\n' ∉ line ∧ nul ∉ line := by
  obtain ⟨digits, rfl, hhex, -, -⟩ := h
  have hdigit : ∀ {c}, hexValue c = none → c ≠ ':' → c ∉ ':' :: digits := by
    intro c hc hcolon hmem
    rcases List.mem_cons.mp hmem with rfl | hmem
    · exact hcolon rfl
    · have hsome := hhex c hmem
      rw [hc] at hsome
      exact absurd hsome (by decide)
  exact ⟨List.cons_ne_nil _ _, hdigit (by decide) (by decide), hdigit (by decide) (by decide)⟩

/-- A token that starts with the line of a record. -/
theorem recordAt_token {kind : Byte} {r : HexRecord} {line extra pre post : List Char}
    (h : RecordLine kind r line) (hextra : nul ∉ extra) :
    RecordAt kind r (pre ++ (line ++ extra) ++ nul :: post) pre.length := by
  have hnul : nul ∉ line ++ extra := List.not_mem_append h.plain.2.2 hextra
  have hat := (stringAt_append pre post hnul).cString
  obtain ⟨digits, rfl, -, -, -⟩ := id h
  exact ⟨digits, extra, hat, h⟩

/-- A delimiter in front is skipped. -/
theorem strtokR_skip {delim : Char} {storage : List Char} {pos : Nat}
    (h : storage[pos]? = some delim) :
    strtokR delim storage pos = strtokR delim storage (pos + 1) := by
  obtain ⟨hpos, hget⟩ := List.getElem?_eq_some_iff.mp h
  have hdrop : storage.drop pos = delim :: storage.drop (pos + 1) := by
    rw [← hget, List.getElem_cons_drop]
  have hstart : pos + ((storage.drop pos).takeWhile (· == delim)).length =
      pos + 1 + ((storage.drop (pos + 1)).takeWhile (· == delim)).length := by
    rw [hdrop, List.takeWhile_cons_of_pos (by simp), List.length_cons]
    omega
  simp only [strtokR, hstart]

theorem strtokLines_skip {heap : List Char} {pos : Nat} (h : heap[pos]? = some '\n') (fuel : Nat) :
    strtokLines fuel pos heap = strtokLines fuel (pos + 1) heap := by
  cases fuel with
  | zero => rfl
  | succ fuel => rw [strtokLines, strtokLines, strtokR_skip h]

/-- A line and what stops it. -/
theorem strtokLines_tok {tok : List Char} (hne : tok ≠ []) (htok : '\n' ∉ tok)
    (hnul : nul ∉ tok) {c : Char} (hc : c = '\n' ∨ c = nul) (pre post : List Char) (fuel : Nat) :
    ∃ saveptr, strtokLines (fuel + 1) pre.length (pre ++ tok ++ c :: post) =
      (pre.length, pre ++ tok ++ nul :: post) ::
        strtokLines fuel saveptr (pre ++ tok ++ nul :: post) ∧
      (c = '\n' → saveptr = (pre ++ tok ++ [nul]).length) := by
  have hstrtok := @strtokR_tok '\n' pre tok post 0 hne htok hnul c hc
  simp only [List.replicate_zero, List.append_nil, Nat.add_zero] at hstrtok
  rw [strtokLines, hstrtok]
  rcases hc with rfl | rfl
  · refine ⟨_, rfl, fun _ => ?_⟩
    simp only [List.length_append, List.length_singleton]
  · exact ⟨_, rfl, fun h => absurd h (by decide)⟩

/-- The rest of the file, from where `strtok` has come to. -/
theorem lines_of_file {records : List HexRecord} {buf : List Char} (h : HexFile records buf)
    (pre behind : List Char) {fuel : Nat} (hfuel : buf.length < fuel) :
    LinesOf records (strtokLines fuel pre.length (pre ++ buf ++ nul :: behind)) := by
  induction h generalizing pre fuel with
  | @eof r line text hline =>
      obtain ⟨hne, hfeed, hnul⟩ := hline.plain
      obtain ⟨fuel, rfl⟩ := Nat.exists_eq_add_one_of_ne_zero (Nat.ne_zero_of_lt hfuel)
      -- the line goes on up to a line feed, to a NUL in the text or to the one behind it
      obtain ⟨extra, c, post, htext, hfeed', hnul', hc⟩ : ∃ extra c post,
          text ++ nul :: behind = extra ++ c :: post ∧ '\n' ∉ extra ∧ nul ∉ extra ∧
            (c = '\n' ∨ c = nul) := by
        have hstop : (text ++ nul :: behind).dropWhile (fun c => c != '\n' && c != nul) ≠ [] := by
          intro hnone
          exact absurd (List.dropWhile_eq_nil_iff.mp hnone nul (by simp)) (by decide)
        obtain ⟨c, post, hpost⟩ := List.exists_cons_of_ne_nil hstop
        have hc := List.head?_dropWhile_not (fun c => c != '\n' && c != nul)
          (text ++ nul :: behind)
        have hextra : ∀ d ∈ (text ++ nul :: behind).takeWhile (fun c => c != '\n' && c != nul),
            d ≠ '\n' ∧ d ≠ nul := fun d hd => by
          simpa using List.mem_takeWhile_imp hd
        refine ⟨_, c, post, ?_, fun hmem => (hextra _ hmem).1 rfl,
          fun hmem => (hextra _ hmem).2 rfl, ?_⟩
        · rw [← hpost, List.takeWhile_append_dropWhile]
        · rw [hpost] at hc
          simpa [Classical.or_iff_not_imp_left] using hc
      obtain ⟨saveptr, htok, -⟩ := strtokLines_tok (List.append_ne_nil_of_left_ne_nil hne extra)
        (List.not_mem_append hfeed hfeed') (List.not_mem_append hnul hnul') hc pre post fuel
      have hheap : pre ++ (line ++ text) ++ nul :: behind =
          pre ++ (line ++ extra) ++ c :: post := by
        simp only [List.append_assoc, htext]
      rw [hheap, htok]
      exact ⟨r, _, _, rfl, recordAt_token hline hnul'⟩
  | @record r rs line rest hline _ ih =>
      obtain ⟨hne, hfeed, hnul⟩ := hline.plain
      obtain ⟨fuel, rfl⟩ := Nat.exists_eq_add_one_of_ne_zero (Nat.ne_zero_of_lt hfuel)
      obtain ⟨saveptr, htok, hsave⟩ := strtokLines_tok hne hfeed hnul (.inl rfl) pre
        (rest ++ nul :: behind) fuel
      have hheap : pre ++ (line ++ '\n' :: rest) ++ nul :: behind =
          pre ++ line ++ '\n' :: (rest ++ nul :: behind) := by simp
      have hnext : pre ++ line ++ nul :: (rest ++ nul :: behind) =
          pre ++ line ++ [nul] ++ rest ++ nul :: behind := by simp
      rw [hheap, htok, hsave rfl]
      refine ⟨_, _, rfl, ?_, ?_⟩
      · have hat := @recordAt_token 0 r line [] pre (rest ++ nul :: behind) hline List.not_mem_nil
        rwa [List.append_nil] at hat
      · rw [hnext]
        refine ih (pre ++ line ++ [nul]) ?_
        rw [List.length_append, List.length_cons] at hfuel
        omega
  | @newline rs rest _ ih =>
      have hheap : pre ++ '\n' :: rest ++ nul :: behind =
          pre ++ ['\n'] ++ rest ++ nul :: behind := by simp
      have hfeed : (pre ++ '\n' :: rest ++ nul :: behind)[pre.length]? = some '\n' := by simp
      rw [strtokLines_skip hfeed, hheap]
      have hrest := ih (pre ++ ['\n']) (Nat.lt_of_succ_lt hfuel)
      rwa [List.length_append] at hrest

/-! ## Transfers -/

/-- The transfers for the records of a file. -/
def transfers (records : List HexRecord) : List Transfer :=
  [.reset 1] ++ records.map (fun r => .ram true (r.addr.setWidth 32) r.data) ++ [.reset 0]

/-- When the list is sent behind `sent`, all of it is sent with `Q`, or a transfer fails
with `E`. -/
def SendsOrFails (dev : Loader) (Q : List Transfer → Prop) (E : Int → List Transfer → Prop) :
    List Transfer → List Transfer → Prop
  | sent, [] => Q sent
  | sent, t :: ts =>
      let status := dev ((sent ++ [t]).map Transfer.write)
      if status < 0 then E status (sent ++ [t]) else SendsOrFails dev Q E (sent ++ [t]) ts

/-- The status of the transfer `k` of a list. -/
def statusAt (dev : Loader) (ts : List Transfer) (k : Nat) : Int :=
  dev ((ts.take (k + 1)).map Transfer.write)

section

variable {dev : Loader} {Q : List Transfer → Prop} {E : Int → List Transfer → Prop}

theorem sendsOrFails_append (sent ts ts' : List Transfer) :
    SendsOrFails dev Q E sent (ts ++ ts') ↔
      SendsOrFails dev (fun sent => SendsOrFails dev Q E sent ts') E sent ts := by
  induction ts generalizing sent with
  | nil => rfl
  | cons t ts ih =>
      simp only [List.cons_append, SendsOrFails, ih]

/-- No transfer fails. -/
theorem sendsOrFails_of_all {sent ts : List Transfer}
    (h : ∀ k < ts.length, 0 ≤ dev ((sent ++ ts.take (k + 1)).map Transfer.write))
    (hQ : Q (sent ++ ts)) : SendsOrFails dev Q E sent ts := by
  induction ts generalizing sent with
  | nil =>
      rw [List.append_nil] at hQ
      exact hQ
  | cons t ts ih =>
      have hfirst : 0 ≤ dev ((sent ++ [t]).map Transfer.write) := h 0 (Nat.succ_pos _)
      rw [SendsOrFails, if_neg (Int.not_lt.mpr hfirst)]
      refine ih (fun k hk => ?_) ?_
      · have hnext := h (k + 1) (Nat.succ_lt_succ hk)
        rwa [List.take_succ_cons, List.append_cons] at hnext
      · rwa [List.append_cons] at hQ

/-- The transfer `k` is the first one that fails. -/
theorem sendsOrFails_of_first {sent ts : List Transfer} {k : Nat} (hk : k < ts.length)
    (hbefore : ∀ j < k, 0 ≤ dev ((sent ++ ts.take (j + 1)).map Transfer.write))
    (hfails : dev ((sent ++ ts.take (k + 1)).map Transfer.write) < 0)
    (hE : E (dev ((sent ++ ts.take (k + 1)).map Transfer.write)) (sent ++ ts.take (k + 1))) :
    SendsOrFails dev Q E sent ts := by
  induction ts generalizing sent k with
  | nil => exact absurd hk (Nat.not_lt_zero k)
  | cons t ts ih =>
      rw [SendsOrFails]
      cases k with
      | zero =>
          have hfirst : dev ((sent ++ [t]).map Transfer.write) < 0 := hfails
          rw [if_pos hfirst]
          exact hE
      | succ k =>
          have hfirst : 0 ≤ dev ((sent ++ [t]).map Transfer.write) := hbefore 0 (Nat.succ_pos k)
          rw [if_neg (Int.not_lt.mpr hfirst)]
          rw [List.take_succ_cons, List.append_cons] at hfails hE
          refine ih (Nat.lt_of_succ_lt_succ hk) (fun j hj => ?_) hfails hE
          have hnext := hbefore (j + 1) (Nat.succ_lt_succ hj)
          rwa [List.take_succ_cons, List.append_cons] at hnext

/-! ## The upload -/

variable (junk : Nat → Junk)

theorem wp_transfer (t : Transfer) {Q : Unit → Uploader → Prop} {E : Int → Uploader → Prop}
    (s : Uploader) : wp (Upload.transfer dev t) Q E s ↔
      let s' : Uploader := { s with sent := s.sent ++ [t] }
      if dev (s'.sent.map Transfer.write) < 0 then E (dev (s'.sent.map Transfer.write)) s'
      else Q () s' := by
  simp only [Upload.transfer, wp_bind, wp_modify, wp_get, wp_ite, wp_goto, wp_pure]

/-- The writes for the lines of a file.  A line is written if `code` is 0 behind it, whether it was
accepted or not. -/
def lineTransfers : List (Nat × List Char) → HexVars → List Transfer
  | [], _ => []
  | l :: ls, v =>
      if v.code = 1 then []
      else
        let (accepted, v) := parseHexLine l.2 l.1 (junk l.1) v
        if v.code = 0 then
          .ram accepted (BitVec.ofInt 32 v.addr) (v.bytes.read 0 v.num) :: lineTransfers ls v
        else lineTransfers ls v

/-- The transfers for a file. -/
def fileTransfers (buf behind : List Char) (v : HexVars) : List Transfer :=
  [.reset 1] ++ lineTransfers junk (fileLines buf behind) v ++ [.reset 0]

/-- The loop has ended. -/
theorem lineTransfers_ended (ls : List (Nat × List Char)) {v : HexVars} (h : v.code = 1) :
    lineTransfers junk ls v = [] := by
  cases ls with
  | nil => rfl
  | cons l ls => rw [lineTransfers, if_pos h]

/-- The lines of a file are written in their order, up to a failure. -/
theorem wp_lines_sends {ls : List (Nat × List Char)} {s : Uploader}
    (hsends : SendsOrFails dev Q E s.sent (lineTransfers junk ls s.vars)) :
    wp (Upload.lines dev junk ls) (fun _ s' => Q s'.sent) (fun i s' => E i s'.sent) s := by
  induction ls generalizing s with
  | nil => exact hsends
  | cons l ls ih =>
      rw [Upload.lines, wp_bind, Upload.line, wp_bind, wp_get]
      by_cases hend : s.vars.code = 1
      · rw [if_pos hend, wp_pure]
        rw [lineTransfers_ended junk _ hend] at hsends
        exact ih (by rwa [lineTransfers_ended junk _ hend])
      · rw [lineTransfers, if_neg hend] at hsends
        rw [if_neg hend]
        generalize parseHexLine l.2 l.1 (junk l.1) s.vars = r at hsends ⊢
        obtain ⟨accepted, v⟩ := r
        dsimp only at hsends ⊢
        rw [wp_bind, wp_modify]
        by_cases hdata : v.code = 0
        · rw [if_pos hdata, SendsOrFails] at hsends
          rw [if_pos hdata, wp_transfer]
          dsimp only
          split
          · next hfails =>
            rw [if_pos hfails] at hsends
            exact hsends
          · next hsent =>
            rw [if_neg hsent] at hsends
            exact ih hsends
        · rw [if_neg hdata] at hsends
          rw [if_neg hdata, wp_pure]
          exact ih hsends

/-- The upload sends the transfers for its file. -/
theorem upload_sends {buf behind : List Char} {v : HexVars} {P : Int × List Transfer → Prop}
    (hsends : SendsOrFails dev (fun sent => P (1, sent)) (fun i sent => P (i, sent)) []
      (fileTransfers junk buf behind v)) : P (cypressUploadIhxFirmware dev junk buf behind v) := by
  rw [fileTransfers, sendsOrFails_append, sendsOrFails_append, SendsOrFails] at hsends
  have hwp : wp (do
      Upload.transfer dev (.reset 1)
      Upload.lines dev junk (fileLines buf behind)
      Upload.transfer dev (.reset 0)) (fun _ s => P (1, s.sent)) (fun i s => P (i, s.sent))
      ⟨v, []⟩ := by
    rw [wp_bind, wp_transfer]
    dsimp only
    split
    · next hfails =>
      rw [if_pos hfails] at hsends
      exact hsends
    · next hsent =>
      rw [if_neg hsent] at hsends
      rw [wp_bind]
      refine wp_mono (wp_lines_sends junk hsends) (fun _ s hreset => ?_) (fun _ _ hfails => hfails)
      rw [wp_transfer]
      exact hreset
  rw [cypressUploadIhxFirmware]
  rw [wp] at hwp
  split at hwp
  · next hrun =>
    simp only [hrun]
    exact hwp
  · next hrun =>
    simp only [hrun]
    exact hwp
  · exact hwp.elim

/-- Of the transfers of a list all are sent, or those up to the first that fails, and it is seen by
the result. -/
structure Uploads (dev : Loader) (ts : List Transfer) (r : Int × List Transfer) : Prop where
  all : (∀ k < ts.length, 0 ≤ statusAt dev ts k) → r = (1, ts)
  first : ∀ k < ts.length, (∀ j < k, 0 ≤ statusAt dev ts j) → statusAt dev ts k < 0 →
    r = (statusAt dev ts k, ts.take (k + 1))

/-- Every file is uploaded so. -/
theorem upload_uploads (buf behind : List Char) (v : HexVars) :
    Uploads dev (fileTransfers junk buf behind v)
      (cypressUploadIhxFirmware dev junk buf behind v) := by
  generalize hts : fileTransfers junk buf behind v = ts
  refine ⟨fun hall => ?_, fun k hk hbefore hfails => ?_⟩
  · refine upload_sends junk (P := fun result => result = (1, ts)) ?_
    rw [hts]
    exact sendsOrFails_of_all hall rfl
  · refine upload_sends junk
      (P := fun result => result = (statusAt dev ts k, ts.take (k + 1))) ?_
    rw [hts]
    exact sendsOrFails_of_first hk hbefore hfails rfl

/-! ## Files of records -/

/-- The lines of records. -/
theorem lineTransfers_records {records : List HexRecord} {ls : List (Nat × List Char)}
    (h : LinesOf records ls) {v : HexVars} (hcode : v.code ≠ 1) :
    lineTransfers junk ls v = records.map fun r => .ram true (r.addr.setWidth 32) r.data := by
  induction records generalizing ls v with
  | nil =>
      obtain ⟨r, l, ls, rfl, hat⟩ := h
      obtain ⟨v', hparse, hend, -, -⟩ := parseHexLine_record hat (junk l.1) v
      have hne : v'.code ≠ 0 := by
        rw [hend]
        decide
      rw [lineTransfers, if_neg hcode, hparse]
      dsimp only
      rw [if_neg hne, lineTransfers_ended junk ls hend]
      rfl
  | cons r records ih =>
      obtain ⟨l, ls, rfl, hat, hrest⟩ := h
      obtain ⟨v', hparse, hdata, haddr, hread⟩ := parseHexLine_record hat (junk l.1) v
      have hzero : v'.code = 0 := hdata
      have haddr' : BitVec.ofInt 32 v'.addr = r.addr.setWidth 32 := by
        rw [haddr, BitVec.ofInt_natCast, BitVec.ofNat_toNat]
      have hcode' : v'.code ≠ 1 := by
        rw [hzero]
        decide
      rw [lineTransfers, if_neg hcode, hparse]
      dsimp only
      rw [if_pos hzero, haddr', hread, ih hrest hcode', List.map_cons]

theorem fileTransfers_records {records : List HexRecord} {buf : List Char} (h : HexFile records buf)
    (behind : List Char) {v : HexVars} (hcode : v.code ≠ 1) :
    fileTransfers junk buf behind v = transfers records := by
  have hlines : LinesOf records (fileLines buf behind) := lines_of_file h [] behind (by simp)
  rw [fileTransfers, lineTransfers_records junk hlines hcode, transfers]

end

/-- An address of a record is all in the first half of the setup packet. -/
theorem transfers_setup (records : List HexRecord) : (transfers records).map Transfer.setup =
    [⟨0xE600, 0⟩] ++ records.map (fun r => ⟨r.addr, 0⟩) ++ [⟨0xE600, 0⟩] := by
  have hrecord : ∀ r : HexRecord,
      (Transfer.ram true (r.addr.setWidth 32) r.data).setup = ⟨r.addr, 0⟩ := by
    intro r
    have haddr : r.addr.toNat < 2 ^ 16 := r.addr.isLt
    have hhigh : ((r.addr.setWidth 32) >>> 16).setWidth 16 = (0 : Word) := by
      refine BitVec.eq_of_toNat_eq ?_
      rw [BitVec.toNat_setWidth, BitVec.toNat_ushiftRight, BitVec.toNat_setWidth,
        Nat.shiftRight_eq_div_pow, Nat.mod_eq_of_lt (Nat.lt_trans haddr (by decide)),
        Nat.div_eq_of_lt haddr]
      rfl
    have hlow : (r.addr.setWidth 32).setWidth 16 = r.addr :=
      BitVec.setWidth_setWidth_of_le r.addr (by decide)
    simp only [Transfer.setup, Transfer.write, hhigh, hlow]
  simp only [transfers, List.map_append, List.map_map, Function.comp_def, hrecord]
  rfl

/-- A file of records is loaded exactly: its transfers are made in order, each once, and the
upload stops at the first of them that fails. -/
theorem upload_exact {records : List HexRecord} {buf : List Char} (h : HexFile records buf)
    {v : HexVars} (hcode : v.code ≠ 1) (dev : Loader) (junk : Nat → Junk) (behind : List Char) :
    (transfers records).map Transfer.setup =
      [⟨0xE600, 0⟩] ++ records.map (fun r => ⟨r.addr, 0⟩) ++ [⟨0xE600, 0⟩] ∧
    ((∀ k < (transfers records).length, 0 ≤ statusAt dev (transfers records) k) →
      cypressUploadIhxFirmware dev junk buf behind v = (1, transfers records)) ∧
    ∀ k < (transfers records).length, (∀ j < k, 0 ≤ statusAt dev (transfers records) j) →
      statusAt dev (transfers records) k < 0 →
        cypressUploadIhxFirmware dev junk buf behind v =
          (statusAt dev (transfers records) k, (transfers records).take (k + 1)) := by
  have huploads : Uploads dev _ (cypressUploadIhxFirmware dev junk buf behind v) :=
    upload_uploads junk buf behind v
  rw [fileTransfers_records junk h behind hcode] at huploads
  exact ⟨transfers_setup records, huploads.all, huploads.first⟩

/-- One data record, with a checksum in lower case. -/
theorem upload_exact_record : HexFile [⟨0, [0x42], by decide⟩] (oneRecord 'b' 'd') ∧
    cypressUploadIhxFirmware (fun _ => 1) (fun _ => ⟨0, 0⟩) (oneRecord 'b' 'd') [] .zero =
      (1, [.reset 1, .ram true 0 [0x42], .reset 0]) := by
  have hrecord : RecordLine 0 ⟨0, [0x42], by decide⟩
      [':', '0', '1', '0', '0', '0', '0', '0', '0', '4', '2', 'b', 'd'] :=
    ⟨['0', '1', '0', '0', '0', '0', '0', '0', '4', '2', 'b', 'd'], rfl, by decide, rfl, by decide⟩
  have hend : RecordLine 1 ⟨0, [], by decide⟩
      [':', '0', '0', '0', '0', '0', '0', '0', '1', 'F', 'F'] :=
    ⟨['0', '0', '0', '0', '0', '0', '0', '1', 'F', 'F'], rfl, by decide, rfl, by decide⟩
  have hfile : HexFile [⟨0, [0x42], by decide⟩] (oneRecord 'b' 'd') :=
    .record hrecord (.eof ['\n'] hend)
  exact ⟨hfile, (upload_exact hfile (by decide) _ _ _).2.1 fun _ _ => Int.one_nonneg⟩

end Smbusb
