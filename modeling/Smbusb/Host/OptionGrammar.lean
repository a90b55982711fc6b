import Smbusb.Host.Opening

/-!
# The grammar of the options

Which option strings `FX2LP_Open` accepts, and what it calls for them.

`OptDictProcess` cuts a copy of the string in place.  `pieces`, `keyOf` and `valOf` say on the
string itself what comes out.  A value goes on over a single `=`, which the source puts back.
It ends in front of two of them, and in front of one at the end.

*The buffer.*  `StringAt` says that a C string stands at an offset.  It needs the characters up
to the NUL only.  So a string stays where it is when something behind its NUL changes, and that
is all that the loops do to what they have cut off already.
-/

namespace Smbusb

/-! ## Pieces -/

/-- The items of a string. -/
def pieces (ops : List Char) : List (List Char) := (ops.splitOn ',').filter (· ≠ [])

/-- The key of a piece, empty if there is none. -/
def keyOf (piece : List Char) : List Char :=
  (piece.dropWhile (· == '=')).takeWhile (· != '=')

/-- What is in front of the end of a value. -/
def joined : List Char → List Char
  | [] => []
  | c :: cs =>
      if c = '=' then
        match cs with
        | [] => []
        | d :: _ => if d = '=' then [] else '=' :: joined cs
      else c :: joined cs

/-- The value of a piece, empty if there is none. -/
def valOf (piece : List Char) : List Char :=
  joined (((piece.dropWhile (· == '=')).dropWhile (· != '=')).dropWhile (· == '='))

example : keyOf "vid=0x10=h".toList = "vid".toList ∧ valOf "vid=0x10=h".toList = "0x10=h".toList :=
  by decide

/-- What a value has behind one of its parts and an `=`. -/
def valTail : List Char → List Char
  | [] => []
  | d :: rest => if d = '=' then [] else '=' :: joined (d :: rest)

/-! ### Pieces of an append -/

section

variable {tok rest : List Char}

theorem pieces_nil : pieces [] = [] := rfl

theorem pieces_skips (n : Nat) (rest : List Char) :
    pieces (List.replicate n ',' ++ rest) = pieces rest := by
  induction n with
  | zero => rfl
  | succ n ih =>
      have hskip : (',' :: (List.replicate n ',' ++ rest)).splitOn ',' =
          [] :: (List.replicate n ',' ++ rest).splitOn ',' :=
        List.splitOn_append_cons_self [] _
      rw [← ih, List.replicate_succ, List.cons_append, pieces, hskip,
        List.filter_cons_of_neg (by simp), pieces]

theorem pieces_single (hne : tok ≠ []) (h : ',' ∉ tok) : pieces tok = [tok] := by
  rw [pieces, List.splitOn_eq_singleton h]
  simp [hne]

theorem pieces_cons (hne : tok ≠ []) (h : ',' ∉ tok) :
    pieces (tok ++ ',' :: rest) = tok :: pieces rest := by
  rw [pieces, List.splitOn_append_cons_self_of_not_mem h, List.filter_cons_of_pos (by simpa),
    pieces]

theorem takeWhile_ne (h : '=' ∉ tok) (rest : List Char) :
    (tok ++ rest).takeWhile (· != '=') = tok ++ rest.takeWhile (· != '=') :=
  List.takeWhile_append_of_pos fun _ hc => by
    rw [bne_iff_ne]
    exact fun heq => h (heq ▸ hc)

theorem dropWhile_ne (h : '=' ∉ tok) (rest : List Char) :
    (tok ++ rest).dropWhile (· != '=') = rest.dropWhile (· != '=') :=
  List.dropWhile_append_of_pos fun _ hc => by
    rw [bne_iff_ne]
    exact fun heq => h (heq ▸ hc)

theorem dropWhile_eq (n : Nat) (rest : List Char) :
    (List.replicate n '=' ++ rest).dropWhile (· == '=') = rest.dropWhile (· == '=') :=
  List.dropWhile_append_of_pos fun _ hc => beq_iff_eq.mpr (List.eq_of_mem_replicate hc)

/-- A part of a key or a value is not skipped. -/
theorem dropWhile_tok (hne : tok ≠ []) (h : '=' ∉ tok) (rest : List Char) :
    (tok ++ rest).dropWhile (· == '=') = tok ++ rest := by
  cases tok with
  | nil => exact absurd rfl hne
  | cons c tok =>
      rw [List.cons_append, List.dropWhile_cons_of_neg]
      rw [beq_iff_eq]
      exact fun heq => h (heq ▸ List.mem_cons_self)

theorem joined_of_ne {c : Char} (hc : c ≠ '=') (rest : List Char) :
    joined (c :: rest) = c :: joined rest := by
  rw [joined.eq_def]
  exact if_neg hc

theorem joined_append (h : '=' ∉ tok) (rest : List Char) :
    joined (tok ++ rest) = tok ++ joined rest := by
  induction tok with
  | nil => rfl
  | cons c tok ih =>
      have hc : c ≠ '=' := fun heq => h (heq ▸ List.mem_cons_self)
      have htail := ih fun hmem => h (List.mem_cons_of_mem c hmem)
      rw [List.cons_append, List.cons_append, ← htail, joined_of_ne hc]

theorem joined_cons (rest : List Char) : joined ('=' :: rest) = valTail rest := by
  cases rest with
  | nil => rfl
  | cons d rest => rfl

theorem valTail_tok (hne : tok ≠ []) (h : '=' ∉ tok) (rest : List Char) :
    valTail (tok ++ rest) = '=' :: (tok ++ joined rest) := by
  have hjoined := joined_append h rest
  cases tok with
  | nil => exact absurd rfl hne
  | cons c tok =>
      have hc : c ≠ '=' := fun heq => h (heq ▸ List.mem_cons_self)
      rw [← hjoined]
      exact if_neg hc

/-- What is kept of a value is its beginning. -/
theorem joined_isPrefix (l : List Char) : joined l <+: l := by
  induction l using joined.induct with
  | case1 => exact List.prefix_refl []
  | case2 => exact List.nil_prefix
  | case3 cs => exact List.nil_prefix
  | case4 d cs hd ih =>
      rw [joined_cons, valTail, if_neg hd]
      exact (List.prefix_cons_inj '=').mpr ih
  | case5 c cs hc ih =>
      rw [joined_of_ne hc]
      exact (List.prefix_cons_inj c).mpr ih

variable (n : Nat)

theorem keyOf_blank : keyOf (List.replicate n '=') = [] := by
  have h := dropWhile_eq n []
  rw [List.append_nil] at h
  rw [keyOf, h]
  rfl

theorem valOf_blank : valOf (List.replicate n '=') = [] := by
  have h := dropWhile_eq n []
  rw [List.append_nil] at h
  rw [valOf, h]
  rfl

theorem keyOf_tok (hne : tok ≠ []) (h : '=' ∉ tok) :
    keyOf (List.replicate n '=' ++ tok) = tok := by
  have htok := dropWhile_tok hne h []
  have htake := takeWhile_ne h []
  rw [List.append_nil] at htok htake
  rw [keyOf, dropWhile_eq, htok, htake]
  exact List.append_nil tok

theorem keyOf_cons (hne : tok ≠ []) (h : '=' ∉ tok) :
    keyOf (List.replicate n '=' ++ tok ++ '=' :: rest) = tok := by
  rw [keyOf, List.append_assoc, dropWhile_eq, dropWhile_tok hne h, takeWhile_ne h]
  exact List.append_nil tok

theorem valOf_tok (hne : tok ≠ []) (h : '=' ∉ tok) :
    valOf (List.replicate n '=' ++ tok) = [] := by
  have htok := dropWhile_tok hne h []
  have hdrop := dropWhile_ne h []
  rw [List.append_nil] at htok hdrop
  rw [valOf, dropWhile_eq, htok, hdrop]
  rfl

theorem valOf_cons (hne : tok ≠ []) (h : '=' ∉ tok) :
    valOf (List.replicate n '=' ++ tok ++ '=' :: rest) =
      joined (rest.dropWhile (· == '=')) := by
  rw [valOf, List.append_assoc, dropWhile_eq, dropWhile_tok hne h, dropWhile_ne h]
  rfl

end

/-! ## Tokens -/

/-- The string `s` stands at an offset of `storage`. -/
structure StringAt (storage : List Char) (pos : Nat) (s : List Char) : Prop where
  at_pos : s ++ [nul] <+: storage.drop pos
  noNul : nul ∉ s

theorem StringAt.cString {storage : List Char} {pos : Nat} {s : List Char}
    (h : StringAt storage pos s) : cString storage pos = s := by
  obtain ⟨⟨rest, hrest⟩, hnul⟩ := h
  rw [Smbusb.cString, ← hrest, List.append_assoc, List.takeWhile_append_of_pos]
  · simp
  · intro c hc
    rw [bne_iff_ne]
    exact fun heq => hnul (heq ▸ hc)

/-- It does not matter what comes behind it. -/
theorem StringAt.append {storage : List Char} {pos : Nat} {s : List Char}
    (h : StringAt storage pos s) (more : List Char) : StringAt (storage ++ more) pos s := by
  refine ⟨h.at_pos.trans ?_, h.noNul⟩
  have hpos : pos ≤ storage.length := by
    have hlen := h.at_pos.length_le
    simp only [List.length_append, List.length_singleton, List.length_drop] at hlen
    omega
  rw [List.drop_append_of_le_length hpos]
  exact List.prefix_append _ _

theorem stringAt_append (pre post : List Char) {s : List Char} (h : nul ∉ s) :
    StringAt (pre ++ s ++ nul :: post) pre.length s := by
  refine ⟨?_, h⟩
  rw [List.append_assoc, List.drop_left]
  exact ⟨post, by simp⟩

/-- A string up to its NUL is made of delimiters, or has a first token. -/
theorem body_cases (delim : Char) (body : List Char) :
    (∃ n, body = List.replicate n delim) ∨ ∃ n tok, tok ≠ [] ∧ delim ∉ tok ∧
      (body = List.replicate n delim ++ tok ∨
        ∃ rest, body = List.replicate n delim ++ tok ++ delim :: rest) := by
  induction body with
  | nil => exact .inl ⟨0, rfl⟩
  | cons c cs ih =>
      by_cases hc : c = delim
      · subst hc
        rcases ih with ⟨n, rfl⟩ | ⟨n, tok, hne, htok, rfl | ⟨rest, rfl⟩⟩
        · exact .inl ⟨n + 1, rfl⟩
        · exact .inr ⟨n + 1, tok, hne, htok, .inl rfl⟩
        · exact .inr ⟨n + 1, tok, hne, htok, .inr ⟨rest, rfl⟩⟩
      · refine .inr ⟨0, ?_⟩
        by_cases hmem : delim ∈ c :: cs
        · obtain ⟨tok, rest, htok, hdelim⟩ := List.eq_append_cons_of_mem hmem
          refine ⟨tok, ?_, hdelim, .inr ⟨rest, htok⟩⟩
          rintro rfl
          exact hc (List.cons.inj htok).1
        · exact ⟨c :: cs, List.cons_ne_nil c cs, hmem, .inl rfl⟩

section

variable {delim : Char} {pre tok post : List Char} (n : Nat)

/-- Only delimiters are left. -/
theorem strtokR_blank (hdelim : delim ≠ nul) :
    strtokR delim (pre ++ List.replicate n delim ++ nul :: post) pre.length =
      (none, pre ++ List.replicate n delim ++ nul :: post) := by
  have hskip : (List.replicate n delim ++ nul :: post).takeWhile (· == delim) =
      List.replicate n delim := by
    rw [List.takeWhile_append_of_pos fun c hc => beq_iff_eq.mpr (List.eq_of_mem_replicate hc)]
    simp [hdelim.symm]
  have hdrop : (pre ++ (List.replicate n delim ++ nul :: post)).drop (pre.length + n) =
      nul :: post := by
    rw [← List.drop_drop, List.drop_left, List.drop_left' (List.length_replicate ..)]
  simp only [strtokR, List.append_assoc, List.drop_left, hskip, List.length_replicate, hdrop]
  simp

/-- The token and what stops it. -/
theorem strtokR_tok (hne : tok ≠ []) (htok : delim ∉ tok) (hnul : nul ∉ tok) {c : Char}
    (hc : c = delim ∨ c = nul) :
    strtokR delim (pre ++ List.replicate n delim ++ tok ++ c :: post) pre.length =
      if c = delim then
        (some (pre.length + n, pre.length + n + tok.length + 1),
          pre ++ List.replicate n delim ++ tok ++ nul :: post)
      else (some (pre.length + n, pre.length + n + tok.length),
        pre ++ List.replicate n delim ++ tok ++ c :: post) := by
  have hskip : (List.replicate n delim ++ (tok ++ c :: post)).takeWhile (· == delim) =
      List.replicate n delim := by
    rw [List.takeWhile_append_of_pos fun c hc => beq_iff_eq.mpr (List.eq_of_mem_replicate hc)]
    cases tok with
    | nil => exact absurd rfl hne
    | cons d tok =>
        have hd : d ≠ delim := fun heq => htok (heq ▸ List.mem_cons_self)
        simp [hd]
  have hdrop : (pre ++ (List.replicate n delim ++ (tok ++ c :: post))).drop (pre.length + n) =
      tok ++ c :: post := by
    rw [← List.drop_drop, List.drop_left, List.drop_left' (List.length_replicate ..)]
  have htake : (tok ++ c :: post).takeWhile (fun c => c != delim && c != nul) = tok := by
    rw [List.takeWhile_append_of_pos]
    · rcases hc with rfl | rfl <;> simp
    · intro d hd
      rw [Bool.and_eq_true, bne_iff_ne, bne_iff_ne]
      exact ⟨fun heq => htok (heq ▸ hd), fun heq => hnul (heq ▸ hd)⟩
  have hlen : 0 < tok.length := List.length_pos_iff.mpr hne
  have hget : (pre ++ (List.replicate n delim ++ (tok ++ c :: post)))[pre.length + n +
      tok.length]? = some c := by
    have hback : pre ++ (List.replicate n delim ++ (tok ++ c :: post)) =
        (pre ++ List.replicate n delim ++ tok) ++ c :: post := by simp
    rw [hback, List.getElem?_append_right (by simp; omega)]
    simp [Nat.add_assoc]
  have hset : (pre ++ (List.replicate n delim ++ (tok ++ c :: post))).set
      (pre.length + n + tok.length) nul =
        pre ++ (List.replicate n delim ++ (tok ++ nul :: post)) := by
    have hback : ∀ d, pre ++ (List.replicate n delim ++ (tok ++ d :: post)) =
        (pre ++ List.replicate n delim ++ tok) ++ d :: post := by simp
    rw [hback, hback, List.set_append_right _ _ (by simp; omega)]
    simp [Nat.add_assoc]
  simp only [strtokR, List.append_assoc, List.drop_left, hskip, List.length_replicate, hdrop,
    htake, hget, hset, Option.some.injEq]
  rw [if_neg (by omega)]

end

/-! ## The inner loop -/

section

variable {fuel : Nat} {item : OptDictItem} {pre post : List Char}

/-- Nothing is left of the piece. -/
theorem optDictItem_end (pos : Nat) (hpos : pos = pre.length) :
    optDictItem fuel pos item (pre ++ nul :: post) = (item, pre ++ nul :: post) := by
  cases fuel with
  | zero => rfl
  | succ fuel =>
      have htok := @strtokR_blank '=' pre post 0 (by decide)
      rw [List.replicate_zero, List.append_nil] at htok
      rw [hpos, optDictItem, htok]

/-- A character of the buffer that lies behind `pre`. -/
theorem set_behind {w : List Char} {i : Nat} (hi : i < w.length) (c : Char) :
    (pre ++ w ++ post).set (pre.length + i) c = pre ++ w.set i c ++ post := by
  rw [List.append_assoc, List.set_append_right _ _ (Nat.le_add_right _ _), Nat.add_sub_cancel_left,
    List.set_append_left _ _ hi, List.append_assoc]

/-- When the key and the value are there, only what is behind `pre` changes, and from the
character `c` on when the value is at its end. -/
theorem optDictItem_frame {key val : Nat} {body : List Char} (c : Char) (hbody : nul ∉ body)
    (hfuel : body.length < fuel) (pos : Nat) (hpos : pos = pre.length + 1) :
    ∃ w, optDictItem fuel pos ⟨some key, some val⟩ (pre ++ c :: body ++ nul :: post) =
      (⟨some key, some val⟩, pre ++ w ++ nul :: post) ∧ w.length = body.length + 1 ∧
        (valTail body = [] → ∃ w', w = c :: w') := by
  induction fuel generalizing pre body c pos with
  | zero => exact absurd hfuel (Nat.not_lt_zero _)
  | succ fuel ih =>
      have hpos' : pos = (pre ++ [c]).length := by simp [hpos]
      have hcount : ∀ {n : Nat} {tok : List Char}, tok ≠ [] → '=' ∉ tok → ∀ rest,
          valTail (List.replicate n '=' ++ (tok ++ rest)) = [] → n ≠ 0 := by
        rintro n tok hne htok rest htail rfl
        rw [List.replicate_zero, List.nil_append, valTail_tok hne htok] at htail
        exact List.cons_ne_nil _ _ htail
      rcases body_cases '=' body with ⟨n, rfl⟩ | ⟨n, tok, hne, htok, rfl | ⟨rest, rfl⟩⟩
      · have hstore : pre ++ c :: List.replicate n '=' ++ nul :: post =
            (pre ++ [c]) ++ List.replicate n '=' ++ nul :: post := by simp
        refine ⟨c :: List.replicate n '=', ?_, by simp, fun _ => ⟨_, rfl⟩⟩
        rw [optDictItem, hstore, hpos', strtokR_blank n (by decide)]
      · have hnul : nul ∉ tok := fun h => hbody (List.mem_append_right _ h)
        have hstore : pre ++ c :: (List.replicate n '=' ++ tok) ++ nul :: post =
            (pre ++ [c]) ++ List.replicate n '=' ++ tok ++ nul :: post := by simp
        have hset : (pre ++ c :: (List.replicate n '=' ++ tok) ++ nul :: post).set
            (pre.length + n) '=' =
              pre ++ (c :: (List.replicate n '=' ++ tok)).set n '=' ++ nul :: post :=
          set_behind (by simp) '='
        refine ⟨(c :: (List.replicate n '=' ++ tok)).set n '=', ?_, by simp, fun htail => ?_⟩
        rotate_left
        · have hpos := hcount hne htok [] (by simpa using htail)
          obtain ⟨m, rfl⟩ := Nat.exists_eq_succ_of_ne_zero hpos
          exact ⟨_, rfl⟩
        rw [optDictItem, hstore, hpos', strtokR_tok n hne htok hnul (.inr rfl),
          if_neg (by decide)]
        simp only [reduceCtorEq, if_false]
        rw [← hstore]
        have hindex : (pre ++ [c]).length + n - 1 = pre.length + n := by simp
        rw [hindex, hset]
        exact optDictItem_end _ (by simp; omega)
      · have hnul : nul ∉ tok := fun h =>
          hbody (List.mem_append_left _ (List.mem_append_right _ h))
        have hrest : nul ∉ rest := fun h =>
          hbody (List.mem_append_right _ (List.mem_cons_of_mem _ h))
        have hstore : pre ++ c :: (List.replicate n '=' ++ tok ++ '=' :: rest) ++ nul :: post =
            (pre ++ [c]) ++ List.replicate n '=' ++ tok ++ '=' :: (rest ++ nul :: post) := by simp
        have hcut : (pre ++ [c]) ++ List.replicate n '=' ++ tok ++ nul :: (rest ++ nul :: post) =
            pre ++ c :: (List.replicate n '=' ++ tok) ++ nul :: (rest ++ nul :: post) := by simp
        have hset : (pre ++ c :: (List.replicate n '=' ++ tok) ++ nul :: (rest ++ nul :: post)).set
            (pre.length + n) '=' = pre ++ (c :: (List.replicate n '=' ++ tok)).set n '=' ++
              nul :: (rest ++ nul :: post) :=
          set_behind (by simp) '='
        have hindex : (pre ++ [c]).length + n - 1 = pre.length + n := by simp
        have htoklen : 0 < tok.length := List.length_pos_iff.mpr hne
        have hlen : rest.length < fuel := by
          simp only [List.length_append, List.length_cons] at hfuel
          omega
        obtain ⟨w, hw, hwlen, -⟩ := @ih (pre ++ (c :: (List.replicate n '=' ++ tok)).set n '=') rest
          nul hrest hlen ((pre ++ [c]).length + n + tok.length + 1) (by simp; omega)
        refine ⟨(c :: (List.replicate n '=' ++ tok)).set n '=' ++ w, ?_, by simp [hwlen]; omega,
          fun htail => ?_⟩
        rotate_left
        · rw [List.append_assoc] at htail
          obtain ⟨m, rfl⟩ := Nat.exists_eq_succ_of_ne_zero (hcount hne htok _ htail)
          exact ⟨_, rfl⟩
        rw [optDictItem, hstore, hpos', strtokR_tok n hne htok hnul (.inl rfl), if_pos rfl]
        simp only [reduceCtorEq, if_false]
        rw [hcut, hindex, hset]
        have hshape : ∀ a : List Char, a ++ nul :: (rest ++ nul :: post) =
            a ++ nul :: rest ++ nul :: post := by simp
        rw [hshape, hw]
        simp

/-- The value, as far as it is cut, stands behind `pre`. -/
theorem optDictItem_value {key val : Nat} {s body : List Char} (hbody : nul ∉ body)
    (hfuel : body.length < fuel) (pos : Nat) (hpos : pos = pre.length + s.length + 1) :
    ∃ w, optDictItem fuel pos ⟨some key, some val⟩ (pre ++ s ++ nul :: body ++ nul :: post) =
      (⟨some key, some val⟩, pre ++ w ++ nul :: post) ∧ w.length = s.length + 1 + body.length ∧
        s ++ valTail body ++ [nul] <+: w ++ [nul] := by
  induction fuel generalizing s body pos with
  | zero => exact absurd hfuel (Nat.not_lt_zero _)
  | succ fuel ih =>
      have hpos' : pos = (pre ++ s ++ [nul]).length := by simp [hpos, Nat.add_assoc]
      by_cases htail : valTail body = []
      · obtain ⟨w, hw, hlen, hhead⟩ := @optDictItem_frame (fuel + 1) (pre ++ s) post key val body
          nul hbody hfuel pos (by simp [hpos])
        obtain ⟨w', rfl⟩ := hhead htail
        refine ⟨s ++ nul :: w', ?_, ?_, ?_⟩
        · simpa using hw
        · simp only [List.length_append, hlen]
          omega
        · rw [htail]
          exact ⟨w' ++ [nul], by simp⟩
      · obtain ⟨tok, hne, htok, hshape⟩ : ∃ tok, tok ≠ [] ∧ '=' ∉ tok ∧
            (body = tok ∨ ∃ rest, body = tok ++ '=' :: rest) := by
          rcases body_cases '=' body with ⟨n, rfl⟩ | ⟨n, tok, hne, htok, hshape⟩
          · cases n with
            | zero => exact absurd rfl htail
            | succ n => exact absurd rfl htail
          · cases n with
            | zero => exact ⟨tok, hne, htok, hshape⟩
            | succ n =>
                rcases hshape with rfl | ⟨rest, rfl⟩
                · exact absurd rfl htail
                · exact absurd rfl htail
        have hindex : (pre ++ s ++ [nul]).length - 1 = (pre ++ s).length + 0 := by simp
        have hback : ∀ post, (pre ++ s ++ [nul] ++ tok ++ nul :: post).set ((pre ++ s).length + 0)
            '=' = pre ++ (s ++ '=' :: tok) ++ nul :: post := by
          intro post
          simp
        rcases hshape with rfl | ⟨rest, rfl⟩
        · have hstore : pre ++ s ++ nul :: body ++ nul :: post =
              (pre ++ s ++ [nul]) ++ List.replicate 0 '=' ++ body ++ nul :: post := by simp
          refine ⟨s ++ '=' :: body, ?_, by simp; omega, ?_⟩
          · rw [optDictItem, hstore, hpos', strtokR_tok 0 hne htok hbody (.inr rfl),
              if_neg (by decide)]
            simp only [reduceCtorEq, if_false, Nat.add_zero, List.replicate_zero, List.append_nil]
            rw [hindex, hback]
            exact optDictItem_end _ (by simp; omega)
          · have hvalue := valTail_tok hne htok []
            rw [List.append_nil, joined, List.append_nil] at hvalue
            rw [hvalue]
        · have hnul : nul ∉ tok := fun h => hbody (List.mem_append_left _ h)
          have hrest : nul ∉ rest := fun h =>
            hbody (List.mem_append_right _ (List.mem_cons_of_mem _ h))
          have hlen : rest.length < fuel := by
            simp only [List.length_append, List.length_cons] at hfuel
            omega
          have hstore : pre ++ s ++ nul :: (tok ++ '=' :: rest) ++ nul :: post =
              (pre ++ s ++ [nul]) ++
                List.replicate 0 '=' ++ tok ++ '=' :: (rest ++ nul :: post) := by
            simp
          have hshape : ∀ a : List Char, a ++ nul :: (rest ++ nul :: post) =
              a ++ nul :: rest ++ nul :: post := by simp
          obtain ⟨w, hw, hwlen, hprefix⟩ := @ih (s ++ '=' :: tok) rest hrest hlen
            ((pre ++ s ++ [nul]).length + tok.length + 1) (by simp; omega)
          refine ⟨w, ?_, by rw [hwlen]; simp; omega, ?_⟩
          · rw [optDictItem, hstore, hpos', strtokR_tok 0 hne htok hnul (.inl rfl), if_pos rfl]
            simp only [reduceCtorEq, if_false, Nat.add_zero, List.replicate_zero, List.append_nil]
            rw [hindex, hback, hshape, hw]
          · rw [valTail_tok hne htok, joined_cons]
            simpa using hprefix

end

/-! ## Items -/

/-- An offset, or none for an empty string. -/
def Reads (storage : List Char) : Option Nat → List Char → Prop
  | none, s => s = []
  | some pos, s => s ≠ [] ∧ StringAt storage pos s

/-- An item holds the key and the value of a piece. -/
structure ItemReads (storage : List Char) (item : OptDictItem) (piece : List Char) : Prop where
  key : Reads storage item.key (keyOf piece)
  val : Reads storage item.val (valOf piece)

theorem Reads.append {storage s : List Char} {o : Option Nat} (h : Reads storage o s)
    (more : List Char) : Reads (storage ++ more) o s := by
  cases o with
  | none => exact h
  | some pos => exact ⟨h.1, h.2.append more⟩

theorem ItemReads.append {storage piece : List Char} {item : OptDictItem}
    (h : ItemReads storage item piece) (more : List Char) :
    ItemReads (storage ++ more) item piece :=
  ⟨h.key.append more, h.val.append more⟩

section

variable {fuel : Nat} {pre post : List Char}

/-- The loop when the key is there. -/
theorem optDictItem_keyed (key : Nat) {body : List Char} (hbody : nul ∉ body)
    (hfuel : body.length < fuel) :
    ∃ val w, optDictItem fuel pre.length ⟨some key, none⟩ (pre ++ body ++ nul :: post) =
      (⟨some key, val⟩, pre ++ w ++ nul :: post) ∧ w.length = body.length ∧
        Reads (pre ++ w ++ [nul]) val (joined (body.dropWhile (· == '='))) := by
  cases fuel with
  | zero => exact absurd hfuel (Nat.not_lt_zero _)
  | succ fuel =>
      rcases body_cases '=' body with ⟨n, rfl⟩ | ⟨n, tok, hne, htok, rfl | ⟨rest, rfl⟩⟩
      · have hdrop := dropWhile_eq n []
        rw [List.append_nil] at hdrop
        refine ⟨none, List.replicate n '=', ?_, rfl, by rw [hdrop]; rfl⟩
        rw [optDictItem, strtokR_blank n (by decide)]
      · have hnul : nul ∉ tok := fun h => hbody (List.mem_append_right _ h)
        have hvalue : joined ((List.replicate n '=' ++ tok).dropWhile (· == '=')) = tok := by
          have hskip := dropWhile_tok hne htok []
          have hjoined := joined_append htok []
          rw [List.append_nil] at hskip hjoined
          rw [dropWhile_eq, hskip, hjoined]
          exact List.append_nil tok
        refine ⟨some (pre.length + n), List.replicate n '=' ++ tok, ?_, rfl, ?_⟩
        · rw [optDictItem, ← List.append_assoc, strtokR_tok n hne htok hnul (.inr rfl),
            if_neg (by decide)]
          simp only [reduceCtorEq, if_false, if_true]
          exact optDictItem_end _ (by simp [Nat.add_assoc])
        · rw [hvalue]
          have hat := stringAt_append (pre ++ List.replicate n '=') [] hnul
          exact ⟨hne, by simpa using hat⟩
      · have hnul : nul ∉ tok := fun h =>
          hbody (List.mem_append_left _ (List.mem_append_right _ h))
        have hrest : nul ∉ rest := fun h =>
          hbody (List.mem_append_right _ (List.mem_cons_of_mem _ h))
        have hlen : rest.length < fuel := by
          simp only [List.length_append, List.length_cons] at hfuel
          omega
        have hvalue : joined ((List.replicate n '=' ++ tok ++ '=' :: rest).dropWhile (· == '=')) =
            tok ++ valTail rest := by
          rw [List.append_assoc, dropWhile_eq, dropWhile_tok hne htok, joined_append htok,
            joined_cons]
        have hclean : nul ∉ tok ++ valTail rest := by
          rw [← joined_cons, ← joined_append htok]
          intro hmem
          rcases List.mem_append.mp ((joined_isPrefix _).subset hmem) with hmem | hmem
          · exact hnul hmem
          · rcases List.mem_cons.mp hmem with hmem | hmem
            · exact absurd hmem (by decide)
            · exact hrest hmem
        obtain ⟨w, hw, hwlen, hprefix⟩ := @optDictItem_value fuel (pre ++ List.replicate n '=') post
          key (pre.length + n) tok rest hrest hlen (pre.length + n + tok.length + 1) (by simp)
        refine ⟨some (pre.length + n), List.replicate n '=' ++ w, ?_, by simp [hwlen]; omega, ?_⟩
        · have hstore : pre ++ (List.replicate n '=' ++ tok ++ '=' :: rest) ++ nul :: post =
              pre ++ List.replicate n '=' ++ tok ++ '=' :: (rest ++ nul :: post) := by simp
          have hshape : ∀ a : List Char, a ++ nul :: (rest ++ nul :: post) =
              a ++ nul :: rest ++ nul :: post := by simp
          rw [optDictItem, hstore, strtokR_tok n hne htok hnul (.inl rfl), if_pos rfl]
          simp only [reduceCtorEq, if_false, if_true]
          rw [hshape, hw, List.append_assoc pre]
        · rw [hvalue]
          refine ⟨by simp [hne], ?_, hclean⟩
          rw [← List.append_assoc, List.append_assoc (pre ++ _), ← List.drop_drop,
            List.append_assoc pre, List.drop_left, List.drop_left' (List.length_replicate ..)]
          exact hprefix

/-- The inner loop, for a piece of the string. -/
theorem optDictItem_piece {piece : List Char} (hpiece : nul ∉ piece)
    (hfuel : piece.length < fuel) :
    ∃ item w, optDictItem fuel pre.length ⟨none, none⟩ (pre ++ piece ++ nul :: post) =
      (item, pre ++ w ++ nul :: post) ∧ w.length = piece.length ∧
        ItemReads (pre ++ w ++ [nul]) item piece := by
  cases fuel with
  | zero => exact absurd hfuel (Nat.not_lt_zero _)
  | succ fuel =>
      rcases body_cases '=' piece with ⟨n, rfl⟩ | ⟨n, tok, hne, htok, rfl | ⟨rest, rfl⟩⟩
      · refine ⟨⟨none, none⟩, List.replicate n '=', ?_, rfl, keyOf_blank n, valOf_blank n⟩
        rw [optDictItem, strtokR_blank n (by decide)]
      · have hnul : nul ∉ tok := fun h => hpiece (List.mem_append_right _ h)
        refine ⟨⟨some (pre.length + n), none⟩, List.replicate n '=' ++ tok, ?_, rfl, ?_, ?_⟩
        · rw [optDictItem, ← List.append_assoc, strtokR_tok n hne htok hnul (.inr rfl),
            if_neg (by decide)]
          simp only [if_true]
          exact optDictItem_end _ (by simp [Nat.add_assoc])
        · rw [keyOf_tok n hne htok]
          have hat := stringAt_append (pre ++ List.replicate n '=') [] hnul
          exact ⟨hne, by simpa using hat⟩
        · exact valOf_tok n hne htok
      · have hnul : nul ∉ tok := fun h =>
          hpiece (List.mem_append_left _ (List.mem_append_right _ h))
        have hrest : nul ∉ rest := fun h =>
          hpiece (List.mem_append_right _ (List.mem_cons_of_mem _ h))
        have hlen : rest.length < fuel := by
          simp only [List.length_append, List.length_cons] at hfuel
          omega
        obtain ⟨val, w, hw, hwlen, hval⟩ := @optDictItem_keyed fuel
          (pre ++ List.replicate n '=' ++ tok ++ [nul]) post (pre.length + n) rest hrest hlen
        refine ⟨⟨some (pre.length + n), val⟩, List.replicate n '=' ++ tok ++ nul :: w, ?_,
          by simp [hwlen], ?_, ?_⟩
        · have hstore : pre ++ (List.replicate n '=' ++ tok ++ '=' :: rest) ++ nul :: post =
              pre ++ List.replicate n '=' ++ tok ++ '=' :: (rest ++ nul :: post) := by simp
          have hshape : ∀ a : List Char, a ++ nul :: (rest ++ nul :: post) =
              a ++ [nul] ++ rest ++ nul :: post := by simp
          have hpos : pre.length + n + tok.length + 1 =
              (pre ++ List.replicate n '=' ++ tok ++ [nul]).length := by simp [Nat.add_assoc]
          rw [optDictItem, hstore, strtokR_tok n hne htok hnul (.inl rfl), if_pos rfl]
          simp only [if_true]
          rw [hshape, hpos, hw]
          simp
        · rw [keyOf_cons n hne htok]
          have hat := stringAt_append (pre ++ List.replicate n '=') (w ++ [nul]) hnul
          exact ⟨hne, by simpa using hat⟩
        · rw [valOf_cons n hne htok]
          simpa using hval

end

/-! ## The outer loop -/

/-- The end of the string. -/
theorem optDictItems_end {fuel : Nat} {start : List Char} {items : List OptDictItem} :
    optDictItems fuel start.length items (start ++ [nul]) = ⟨items, start ++ [nul]⟩ := by
  cases fuel with
  | zero => rfl
  | succ fuel =>
      have htok := @strtokR_blank ',' start [] 0 (by decide)
      rw [List.replicate_zero, List.append_nil] at htok
      rw [optDictItems, htok]

/-- The items found are the pieces of what was left of the string. -/
theorem optDictItems_pieces {fuel : Nat} {start todo : List Char} (items : List OptDictItem)
    (htodo : nul ∉ todo) (hfuel : todo.length < fuel) :
    ∃ new storage, optDictItems fuel start.length items (start ++ todo ++ [nul]) =
      ⟨items ++ new, storage⟩ ∧ start <+: storage ∧
        List.Forall₂ (ItemReads storage) new (pieces todo) := by
  induction fuel generalizing start todo items with
  | zero => exact absurd hfuel (Nat.not_lt_zero _)
  | succ fuel ih =>
      rcases body_cases ',' todo with ⟨n, rfl⟩ | ⟨n, tok, hne, htok, rfl | ⟨rest, rfl⟩⟩
      · have hpieces := pieces_skips n []
        rw [List.append_nil, pieces_nil] at hpieces
        refine ⟨[], start ++ List.replicate n ',' ++ [nul], ?_, ?_, ?_⟩
        · rw [optDictItems, strtokR_blank n (by decide)]
          simp
        · rw [List.append_assoc]
          exact List.prefix_append _ _
        · rw [hpieces]
          exact .nil
      · have hnul : nul ∉ tok := fun h => htodo (List.mem_append_right _ h)
        have hstore : start ++ (List.replicate n ',' ++ tok) ++ [nul] =
            start ++ List.replicate n ',' ++ tok ++ nul :: [] := by simp
        have hpos : start.length + n = (start ++ List.replicate n ',').length := by simp
        obtain ⟨item, w, hitem, hlen, hreads⟩ := @optDictItem_piece
          ((start ++ List.replicate n ',' ++ tok ++ nul :: []).length + 1)
          (start ++ List.replicate n ',') [] tok hnul (by simp; omega)
        have hsave : start.length + n + tok.length =
          (start ++ List.replicate n ',' ++ w).length := by
          simp [hlen, Nat.add_assoc]
        refine ⟨[item], start ++ List.replicate n ',' ++ w ++ [nul], ?_, ?_, ?_⟩
        · rw [optDictItems, hstore, strtokR_tok n hne htok hnul (.inr rfl), if_neg (by decide)]
          simp only
          rw [hpos, hitem, ← hpos, hsave]
          exact optDictItems_end
        · rw [List.append_assoc, List.append_assoc]
          exact List.prefix_append _ _
        · rw [pieces_skips, pieces_single hne htok]
          exact .cons hreads .nil
      · have hnul : nul ∉ tok := fun h =>
          htodo (List.mem_append_left _ (List.mem_append_right _ h))
        have hrest : nul ∉ rest := fun h =>
          htodo (List.mem_append_right _ (List.mem_cons_of_mem _ h))
        have hless : rest.length < fuel := by
          simp only [List.length_append, List.length_cons] at hfuel
          omega
        have hstore : start ++ (List.replicate n ',' ++ tok ++ ',' :: rest) ++ [nul] =
            start ++ List.replicate n ',' ++ tok ++ ',' :: (rest ++ [nul]) := by simp
        have hpos : start.length + n = (start ++ List.replicate n ',').length := by simp
        obtain ⟨item, w, hitem, hlen, hreads⟩ := @optDictItem_piece
          ((start ++ List.replicate n ',' ++ tok ++ nul :: (rest ++ [nul])).length + 1)
          (start ++ List.replicate n ',') (rest ++ [nul]) tok hnul (by simp; omega)
        have hsave : start.length + n + tok.length + 1 =
            (start ++ List.replicate n ',' ++ w ++ [nul]).length := by
          simp [hlen, Nat.add_assoc]
        obtain ⟨new, storage, hloop, hprefix, hall⟩ :=
          @ih (start ++ List.replicate n ',' ++ w ++ [nul])
          rest (items ++ [item]) hrest hless
        refine ⟨item :: new, storage, ?_, ?_, ?_⟩
        · have hshape : ∀ a : List Char,
            a ++ nul :: (rest ++ [nul]) = a ++ [nul] ++ rest ++ [nul] := by
            simp
          rw [optDictItems, hstore, strtokR_tok n hne htok hnul (.inl rfl), if_pos rfl]
          simp only
          rw [hpos, hitem, ← hpos, hsave, hshape, hloop]
          simp
        · refine List.IsPrefix.trans ?_ hprefix
          rw [List.append_assoc, List.append_assoc]
          exact List.prefix_append _ _
        · rw [List.append_assoc, pieces_skips, pieces_cons hne htok]
          obtain ⟨more, rfl⟩ := hprefix
          exact .cons (hreads.append more) hall

/-- The items of a string are its pieces. -/
theorem optDictProcess_pieces {ops : List Char} (hops : nul ∉ ops) :
    List.Forall₂ (ItemReads (optDictProcess ops).storage) (optDictProcess ops).items
      (pieces ops) := by
  obtain ⟨new, storage, hloop, -, hall⟩ := @optDictItems_pieces ((ops ++ [nul]).length + 1) []
    ops [] hops (by simp)
  have hprocess : optDictProcess ops = ⟨new, storage⟩ := hloop
  rw [hprocess]
  exact hall

/-! ## The options -/

/-- The keys of the two arguments of a routine. -/
def OpenRoutine.keys : OpenRoutine → List Char × List Char
  | vidPid => ("vid".toList, "pid".toList)
  | busAddr => ("bus".toList, "addr".toList)

/-- A piece that gives a number for a key. -/
structure Gives (piece key : List Char) (num : UInt) : Prop where
  key : keyOf piece = key
  val : valOf piece ≠ []
  num : optionNumber (valOf piece) = num

/-- The strings that are accepted, with the routine and the arguments. -/
structure Grammar (ops : List Char) (routine : OpenRoutine) (arg0 arg1 : UInt) : Prop where
  items : ∃ p q, (pieces ops = [p, q] ∨ pieces ops = [q, p]) ∧ Gives p routine.keys.1 arg0 ∧
    Gives q routine.keys.2 arg1
  arg0 : arg0 ≠ notGiven
  arg1 : arg1 ≠ notGiven

/-- The other routine. -/
def OpenRoutine.other : OpenRoutine → OpenRoutine
  | vidPid => busAddr
  | busAddr => vidPid

/-- The argument a key is for: of which routine, and whether it is the second one. -/
def argOf (key : List Char) : Option (OpenRoutine × Bool) :=
  if key = "vid".toList then some (.vidPid, false)
  else if key = "pid".toList then some (.vidPid, true)
  else if key = "bus".toList then some (.busAddr, false)
  else if key = "addr".toList then some (.busAddr, true)
  else none

/-- An argument is given. -/
def OpenVars.give (v : OpenVars) (routine : OpenRoutine) (second : Bool) (num : UInt) : OpenVars :=
  if second then { v with routine := some routine, arg1 := num }
  else { v with routine := some routine, arg0 := num }

/-- The loop of `FX2LP_Open`, on the pieces. -/
def openPieces : List (List Char) → OpenVars → Option OpenVars
  | [], v => some v
  | p :: ps, v =>
      if keyOf p = [] ∨ valOf p = [] then some v
      else
        match argOf (keyOf p) with
        | none => none
        | some (routine, second) =>
            if v.routine = some routine.other then none
            else openPieces ps (v.give routine second (optionNumber (valOf p)))

theorem argOf_eq_some {key : List Char} {routine : OpenRoutine} {second : Bool} :
    argOf key = some (routine, second) ↔
      key = if second then routine.keys.2 else routine.keys.1 := by
  unfold argOf
  constructor
  · intro h
    split at h
    · next hkey => cases h; exact hkey
    · split at h
      · next hkey => cases h; exact hkey
      · split at h
        · next hkey => cases h; exact hkey
        · split at h
          · next hkey => cases h; exact hkey
          · cases h
  · rintro rfl
    cases routine <;> cases second <;> decide

/-- The items are read as the pieces. -/
theorem openOptions_pieces {storage : List Char} {items : List OptDictItem}
    {ps : List (List Char)} (h : List.Forall₂ (ItemReads storage) items ps) (v : OpenVars) :
    openOptions storage items v = openPieces ps v := by
  induction h generalizing v with
  | nil => rfl
  | @cons item piece items ps hitem _ ih =>
      obtain ⟨key, val⟩ := item
      obtain ⟨hkey, hval⟩ := hitem
      cases key with
      | none =>
          have hempty : keyOf piece = [] := hkey
          rw [openOptions, openPieces, if_pos (.inl hempty)]
          intro _ _ hnone
          cases hnone
      | some key =>
          cases val with
          | none =>
              have hempty : valOf piece = [] := hval
              rw [openOptions, openPieces, if_pos (.inr hempty)]
              intro _ _ hnone
              cases hnone
          | some val =>
              obtain ⟨hkey, hkeyAt⟩ : keyOf piece ≠ [] ∧ StringAt storage key (keyOf piece) := hkey
              obtain ⟨hval, hvalAt⟩ : valOf piece ≠ [] ∧ StringAt storage val (valOf piece) := hval
              have hthere : ¬ (keyOf piece = [] ∨ valOf piece = []) := not_or.mpr ⟨hkey, hval⟩
              rw [openOptions, openPieces, if_neg hthere, hkeyAt.cString, hvalAt.cString]
              simp only [argOf]
              split
              · simp only [OpenRoutine.other, ih]
                rfl
              · split
                · simp only [OpenRoutine.other, ih]
                  rfl
                · split
                  · simp only [OpenRoutine.other, ih]
                    rfl
                  · split
                    · simp only [OpenRoutine.other, ih]
                      rfl
                    · rfl

/-- The call that follows the loop. -/
def OpenVars.call : Option OpenVars → Option (OpenRoutine × UInt × UInt)
  | some ⟨some routine, arg0, arg1⟩ =>
      if arg0 = notGiven ∨ arg1 = notGiven then none else some (routine, arg0, arg1)
  | _ => none

theorem openCall_pieces {ops : List Char} (hops : nul ∉ ops) :
    openCall ops = if (pieces ops).length ≠ 2 then none
      else OpenVars.call (openPieces (pieces ops) ⟨none, notGiven, notGiven⟩) := by
  have hall := optDictProcess_pieces hops
  rw [← hall.length_eq, ← openOptions_pieces hall]
  rfl

theorem gives_iff {piece : List Char} {routine : OpenRoutine} (second : Bool) {num : UInt} :
    Gives piece (if second then routine.keys.2 else routine.keys.1) num ↔
      argOf (keyOf piece) = some (routine, second) ∧ valOf piece ≠ [] ∧
        optionNumber (valOf piece) = num := by
  rw [argOf_eq_some]
  exact ⟨fun h => ⟨h.key, h.val, h.num⟩, fun h => ⟨h.1, h.2.1, h.2.2⟩⟩

/-- A piece changes the locals if it gives an argument. -/
theorem openPieces_cons (p : List Char) (ps : List (List Char)) (v : OpenVars) :
    openPieces (p :: ps) v = some v ∨ openPieces (p :: ps) v = none ∨
      ∃ routine second, argOf (keyOf p) = some (routine, second) ∧ valOf p ≠ [] ∧
        (v.routine = none ∨ v.routine = some routine) ∧ openPieces (p :: ps) v =
          openPieces ps (v.give routine second (optionNumber (valOf p))) := by
  rw [openPieces]
  split
  · exact .inl rfl
  · next hthere =>
    cases harg : argOf (keyOf p) with
    | none => exact .inr (.inl rfl)
    | some arg =>
        obtain ⟨routine, second⟩ := arg
        simp only
        split
        · exact .inr (.inl rfl)
        · next hother =>
          refine .inr (.inr ⟨routine, second, rfl, (not_or.mp hthere).2, ?_, rfl⟩)
          cases hv : v.routine with
          | none => exact .inl rfl
          | some routine' =>
              rw [hv] at hother
              cases routine <;> cases routine' <;> first
                | exact .inr rfl
                | exact absurd rfl hother

/-- A piece that gives an argument of a routine that may be called. -/
theorem openPieces_gives {p key : List Char} {num : UInt} {routine : OpenRoutine} (second : Bool)
    (h : Gives p key num) (hkey : key = if second then routine.keys.2 else routine.keys.1)
    (ps : List (List Char)) {v : OpenVars} (hv : v.routine = none ∨ v.routine = some routine) :
    openPieces (p :: ps) v = openPieces ps (v.give routine second num) := by
  subst hkey
  obtain ⟨harg, hval, rfl⟩ := (gives_iff second).mp h
  have hkey : keyOf p ≠ [] := by
    intro hempty
    rw [hempty] at harg
    exact absurd harg (by cases routine <;> cases second <;> decide)
  have hother : v.routine ≠ some routine.other := by
    intro hother
    rcases hv with hv | hv
    · exact Option.some_ne_none _ (hother.symm.trans hv)
    · have hsame := Option.some.inj (hother.symm.trans hv)
      cases routine <;> exact OpenRoutine.noConfusion hsame
  rw [openPieces, if_neg (not_or.mpr ⟨hkey, hval⟩), harg]
  exact if_neg hother

/-- What is called for two pieces. -/
theorem call_iff {p q : List Char} {routine : OpenRoutine} {arg0 arg1 : UInt} :
    OpenVars.call (openPieces [p, q] ⟨none, notGiven, notGiven⟩) = some (routine, arg0, arg1) ↔
      arg0 ≠ notGiven ∧ arg1 ≠ notGiven ∧
        (Gives p routine.keys.1 arg0 ∧ Gives q routine.keys.2 arg1 ∨
          Gives q routine.keys.1 arg0 ∧ Gives p routine.keys.2 arg1) := by
  constructor
  · intro h
    rcases openPieces_cons p [q] ⟨none, notGiven, notGiven⟩ with
      hp | hp | ⟨r, second, harg, hval, -, hp⟩
    · rw [hp] at h
      cases h
    · rw [hp] at h
      cases h
    · rw [hp] at h
      rcases openPieces_cons q [] (OpenVars.give ⟨none, notGiven, notGiven⟩ r second
        (optionNumber (valOf p))) with hq | hq | ⟨r', second', harg', hval', hr, hq⟩
      · rw [hq] at h
        cases second <;> simp [OpenVars.call, OpenVars.give] at h
      · rw [hq] at h
        cases h
      · obtain rfl : r = r' := by
          cases second <;> simpa [OpenVars.give] using hr
        rw [hq] at h
        cases second <;> cases second' <;>
          simp only [OpenVars.call, OpenVars.give, openPieces, true_or, or_true, if_true,
            if_false, Bool.false_eq_true, reduceCtorEq, Option.ite_none_left_eq_some,
            Option.some.injEq, Prod.mk.injEq, not_or] at h
        · obtain ⟨⟨hg0, hg1⟩, rfl, rfl, rfl⟩ := h
          exact ⟨hg0, hg1, .inl ⟨(gives_iff false).mpr ⟨harg, hval, rfl⟩,
            (gives_iff true).mpr ⟨harg', hval', rfl⟩⟩⟩
        · obtain ⟨⟨hg0, hg1⟩, rfl, rfl, rfl⟩ := h
          exact ⟨hg0, hg1, .inr ⟨(gives_iff false).mpr ⟨harg', hval', rfl⟩,
            (gives_iff true).mpr ⟨harg, hval, rfl⟩⟩⟩
  · rintro ⟨hg0, hg1, ⟨hp, hq⟩ | ⟨hq, hp⟩⟩
    · rw [openPieces_gives false hp rfl [q] (.inl rfl), openPieces_gives true hq rfl [] (.inr rfl)]
      exact if_neg (not_or.mpr ⟨hg0, hg1⟩)
    · rw [openPieces_gives true hp rfl [q] (.inl rfl), openPieces_gives false hq rfl [] (.inr rfl)]
      exact if_neg (not_or.mpr ⟨hg0, hg1⟩)

/-- The calls are those of the grammar. -/
theorem openCall_iff {ops : List Char} (hops : nul ∉ ops) (routine : OpenRoutine)
    (arg0 arg1 : UInt) :
    openCall ops = some (routine, arg0, arg1) ↔ Grammar ops routine arg0 arg1 := by
  rw [openCall_pieces hops]
  split
  · next hlen =>
    refine ⟨fun h => absurd h.symm (Option.some_ne_none _), fun h => ?_⟩
    obtain ⟨p, q, hpieces | hpieces, -⟩ := h.items
    · exact absurd (congrArg List.length hpieces) hlen
    · exact absurd (congrArg List.length hpieces) hlen
  · next hlen =>
    obtain ⟨p, q, hpieces⟩ := List.length_eq_two.mp (Classical.not_not.mp hlen)
    rw [hpieces, call_iff]
    constructor
    · rintro ⟨hg0, hg1, ⟨hp, hq⟩ | ⟨hq, hp⟩⟩
      · exact ⟨⟨p, q, .inl hpieces, hp, hq⟩, hg0, hg1⟩
      · exact ⟨⟨q, p, .inr hpieces, hq, hp⟩, hg0, hg1⟩
    · rintro ⟨⟨p', q', hpieces' | hpieces', hp, hq⟩, hg0, hg1⟩
      · obtain ⟨rfl, rfl⟩ : p = p' ∧ q = q' := by simpa using hpieces.symm.trans hpieces'
        exact ⟨hg0, hg1, .inl ⟨hp, hq⟩⟩
      · obtain ⟨rfl, rfl⟩ : p = q' ∧ q = p' := by simpa using hpieces.symm.trans hpieces'
        exact ⟨hg0, hg1, .inr ⟨hp, hq⟩⟩

/-- `FX2LP_Open` calls a routine exactly for the strings of the grammar, with the arguments in
the order of the routine, whatever the order of the items.  For any other string it returns -1
and calls none. -/
theorem openGrammar {ops : List Char} (hops : nul ∉ ops) :
    (∀ routine arg0 arg1,
      openCall ops = some (routine, arg0, arg1) ↔ Grammar ops routine arg0 arg1) ∧
    (∀ routine arg0 arg1, Grammar ops routine arg0 arg1 →
      ∀ o s, fx2lpOpen o ops s = routine.call o arg0 arg1 s) ∧
    ((∀ routine arg0 arg1, ¬ Grammar ops routine arg0 arg1) →
      openCall ops = none ∧ ∀ o s, fx2lpOpen o ops s = some (-1, s)) ∧
    ∀ ops', nul ∉ ops' → ∀ p q, pieces ops = [p, q] → pieces ops' = [q, p] →
      openCall ops' = openCall ops := by
  refine ⟨openCall_iff hops, fun routine arg0 arg1 h o s => ?_, fun h => ?_, ?_⟩
  · rw [fx2lpOpen, (openCall_iff hops routine arg0 arg1).mpr h]
  · have hnone : openCall ops = none := by
      refine Option.eq_none_iff_forall_ne_some.mpr fun r hr => ?_
      exact h r.1 r.2.1 r.2.2 ((openCall_iff hops _ _ _).mp hr)
    refine ⟨hnone, fun o s => ?_⟩
    rw [fx2lpOpen, hnone]
  · intro ops' hops' p q hpieces hpieces'
    refine Option.ext fun r => ?_
    obtain ⟨routine, arg0, arg1⟩ := r
    rw [openCall_iff hops', openCall_iff hops]
    have hpair : ∀ p' q', (pieces ops' = [p', q'] ∨ pieces ops' = [q', p']) ↔
        (pieces ops = [p', q'] ∨ pieces ops = [q', p']) := by
      intro p' q'
      rw [hpieces, hpieces']
      simp only [List.cons.injEq, and_true]
      tauto
    constructor
    · rintro ⟨⟨p', q', hitems, hp, hq⟩, hg0, hg1⟩
      exact ⟨⟨p', q', (hpair p' q').mp hitems, hp, hq⟩, hg0, hg1⟩
    · rintro ⟨⟨p', q', hitems, hp, hq⟩, hg0, hg1⟩
      exact ⟨⟨p', q', (hpair p' q').mpr hitems, hp, hq⟩, hg0, hg1⟩

/-- Two spellings of one call. -/
theorem openGrammar_swapped : openCall ",vid=1,,pid=2".toList = some (.vidPid, 1, 2) ∧
    openCall "pid=2,vid=1".toList = openCall ",vid=1,,pid=2".toList := by
  obtain ⟨hcall, -, -, hswap⟩ := @openGrammar ",vid=1,,pid=2".toList (by decide +kernel)
  refine ⟨(hcall .vidPid 1 2).mpr ?_, ?_⟩
  · refine ⟨⟨"vid=1".toList, "pid=2".toList, .inl (by decide +kernel), ?_, ?_⟩,
      by decide, by decide⟩
    · exact ⟨by decide +kernel, by decide +kernel, by decide +kernel⟩
    · exact ⟨by decide +kernel, by decide +kernel, by decide +kernel⟩
  · exact hswap "pid=2,vid=1".toList (by decide +kernel) "vid=1".toList "pid=2".toList
      (by decide +kernel) (by decide +kernel)

end Smbusb
