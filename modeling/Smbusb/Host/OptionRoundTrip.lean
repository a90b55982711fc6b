import Smbusb.Host.OptionGrammar

/-!
# Options read back

`OptDictProcess` on a string that was spelled out of keys and values.

An `OptionPair` is a key and a value as an option string can hold them.  A key has no `=` in it,
a value may have some anywhere.  `spell` puts the pairs one behind the other, and
`OptDict.pairs` is what the items of a dictionary say, as strings.

Every key comes back.  A value is cut by the same `strtok_r` as the key, which skips a run of
`=` as if it was one.  The source puts one `=` back in front of a later part.  So a value comes
back if it is `Unbroken`: each `=` of it stands alone between two parts.
-/

namespace Smbusb

/-! ## Pairs -/

/-- A key and a value that can be spelled. -/
structure OptionPair where
  key : List Char
  val : List Char
  key_ne : key ≠ []
  val_ne : val ≠ []
  key_chars : ',' ∉ key ∧ '=' ∉ key ∧ nul ∉ key
  val_chars : ',' ∉ val ∧ nul ∉ val

namespace OptionPair

/-- `key=value`. -/
def item (p : OptionPair) : List Char := p.key ++ '=' :: p.val

/-- `key1=value1,key2=value2,...`. -/
def spell (ps : List OptionPair) : List Char := [','].intercalate (ps.map item)

/-- What a dictionary says about the pair if it has it complete. -/
def entry (p : OptionPair) : Option (List Char) × Option (List Char) := (some p.key, some p.val)

end OptionPair

/-- The items, as strings. -/
def OptDict.pairs (d : OptDict) : List (Option (List Char) × Option (List Char)) :=
  d.items.map fun item => (item.key.map (cString d.storage), item.val.map (cString d.storage))

/-- The value has no `=` at its start or its end, and no two in a row. -/
structure Unbroken (val : List Char) : Prop where
  start : ¬ ['='] <+: val
  stop : ¬ ['='] <:+ val
  inside : ¬ ['=', '='] <:+: val

/-! ## What is kept of a value -/

/-- All of it is kept from its first part on if no `=` is at the end and none follows another. -/
theorem joined_eq_self (l : List Char) :
    joined l = l ↔ ¬ ['='] <:+ l ∧ ¬ ['=', '='] <:+: l := by
  induction l using joined.induct with
  | case1 => simp [joined]
  | case2 => simp [joined]
  | case3 cs => simp [joined, List.infix_cons_iff]
  | case4 d cs hd ih =>
      rw [joined_cons, valTail, if_neg hd, List.cons_inj_right, ih]
      simp [List.suffix_cons_iff, List.infix_cons_iff, Ne.symm hd]
  | case5 c cs hc ih =>
      rw [joined_of_ne hc, List.cons_inj_right, ih]
      simp [List.suffix_cons_iff, List.infix_cons_iff, Ne.symm hc]

/-- The value a dictionary has for a value in the string. -/
def valueRead (val : List Char) : List Char := joined (val.dropWhile (· == '='))

/-- A value comes back if it is unbroken. -/
theorem valueRead_eq_self (val : List Char) : valueRead val = val ↔ Unbroken val := by
  rw [valueRead]
  by_cases hstart : ['='] <+: val
  · refine ⟨fun h => ?_, fun h => absurd hstart h.start⟩
    obtain ⟨rest, rfl⟩ := hstart
    -- The `=` at the start is gone, and nothing is added.
    have hlen : (joined (rest.dropWhile (· == '='))).length ≤ rest.length :=
      (joined_isPrefix _).length_le.trans (List.dropWhile_suffix _).length_le
    have hsame : (joined (rest.dropWhile (· == '='))).length = rest.length + 1 :=
      congrArg List.length h
    omega
  · have hdrop : val.dropWhile (· == '=') = val := by
      cases val with
      | nil => rfl
      | cons c rest =>
          refine List.dropWhile_cons_of_neg fun hc => hstart ?_
          rw [beq_iff_eq.mp hc]
          exact ⟨rest, rfl⟩
    rw [hdrop, joined_eq_self]
    exact ⟨fun h => ⟨hstart, h.1, h.2⟩, fun h => ⟨h.stop, h.inside⟩⟩

/-! ## The round trip -/

/-- An empty string is not there. -/
def keptString (s : List Char) : Option (List Char) := if s = [] then none else some s

theorem keptString_of_ne {s : List Char} (h : s ≠ []) : keptString s = some s := if_neg h

theorem Reads.map_cString {storage s : List Char} {o : Option Nat} (h : Reads storage o s) :
    o.map (cString storage) = keptString s := by
  cases o with
  | none =>
      obtain rfl : s = [] := h
      rfl
  | some pos =>
      obtain ⟨hne, hat⟩ : s ≠ [] ∧ StringAt storage pos s := h
      rw [keptString_of_ne hne, ← hat.cString]
      rfl

/-- A dictionary has the keys and the values of the pieces. -/
theorem pairs_optDictProcess {ops : List Char} (hops : nul ∉ ops) :
    (optDictProcess ops).pairs =
      (pieces ops).map fun piece => (keptString (keyOf piece), keptString (valOf piece)) := by
  rw [OptDict.pairs]
  have hall := optDictProcess_pieces hops
  generalize (optDictProcess ops).items = items at hall ⊢
  generalize pieces ops = ps at hall ⊢
  induction hall with
  | nil => rfl
  | cons hitem _ ih =>
      rw [List.map_cons, List.map_cons, ih, hitem.key.map_cString, hitem.val.map_cString]

namespace OptionPair

theorem item_chars (p : OptionPair) : ',' ∉ p.item ∧ nul ∉ p.item := by
  obtain ⟨hkey, -, hkeyNul⟩ := p.key_chars
  obtain ⟨hval, hvalNul⟩ := p.val_chars
  constructor
  · simp [item, hkey, hval]
  · rw [item, List.mem_append, List.mem_cons]
    rintro (h | h | h)
    · exact hkeyNul h
    · exact absurd h (by decide)
    · exact hvalNul h

theorem item_ne (p : OptionPair) : p.item ≠ [] := List.append_ne_nil_of_left_ne_nil p.key_ne _

theorem nul_spell (ps : List OptionPair) : nul ∉ spell ps := by
  induction ps with
  | nil => exact List.not_mem_nil
  | cons p ps ih =>
      cases ps with
      | nil => simpa [spell] using p.item_chars.2
      | cons q ps =>
          have hspell : spell (p :: q :: ps) = p.item ++ [','] ++ spell (q :: ps) :=
            List.intercalate_cons_cons
          rw [hspell, List.mem_append, List.mem_append]
          rintro ((h | h) | h)
          · exact p.item_chars.2 h
          · exact absurd h (by decide)
          · exact ih h

/-- The string falls into the items it was put together of. -/
theorem pieces_spell (ps : List OptionPair) : pieces (spell ps) = ps.map item := by
  cases ps with
  | nil => rfl
  | cons p ps =>
      have hcomma : ∀ l ∈ (p :: ps).map item, ',' ∉ l := by
        intro l hl
        obtain ⟨q, -, rfl⟩ := List.mem_map.mp hl
        exact q.item_chars.1
      rw [pieces, spell, List.splitOn_intercalate ',' hcomma (List.cons_ne_nil _ _),
        List.filter_eq_self]
      intro l hl
      obtain ⟨q, -, rfl⟩ := List.mem_map.mp hl
      exact decide_eq_true q.item_ne

theorem keyOf_item (p : OptionPair) : keyOf p.item = p.key :=
  keyOf_cons 0 p.key_ne p.key_chars.2.1

theorem valOf_item (p : OptionPair) : valOf p.item = valueRead p.val :=
  valOf_cons 0 p.key_ne p.key_chars.2.1

/-- The keys come back, and of each value what is read of it. -/
theorem pairs_spell (ps : List OptionPair) :
    (optDictProcess (spell ps)).pairs =
      ps.map fun p => (some p.key, keptString (valueRead p.val)) := by
  rw [pairs_optDictProcess (nul_spell ps), pieces_spell, List.map_map]
  refine List.map_congr_left fun p _ => ?_
  rw [Function.comp_apply, keyOf_item, valOf_item, keptString_of_ne p.key_ne]

/-- A value comes back if it is unbroken. -/
theorem keptString_valueRead (p : OptionPair) :
    keptString (valueRead p.val) = some p.val ↔ Unbroken p.val := by
  rw [← valueRead_eq_self, keptString]
  split
  · next hempty => simpa [hempty] using p.val_ne.symm
  · exact Option.some_inj

/-- `OptDictProcess` gives the pairs back, in order and complete, exactly if all of their values
are unbroken. -/
theorem readsBack_iff (ps : List OptionPair) :
    (optDictProcess (spell ps)).pairs = ps.map entry ↔ ∀ p ∈ ps, Unbroken p.val := by
  rw [pairs_spell, List.map_inj_left]
  refine forall₂_congr fun p _ => ?_
  rw [entry, Prod.mk.injEq, keptString_valueRead]
  exact and_iff_right rfl

/-- A value that ends with an `=`. -/
def padded : OptionPair where
  key := "key".toList
  val := "YQ=".toList
  key_ne := by decide
  val_ne := by decide
  key_chars := by decide
  val_chars := by decide

/-- It comes back without it. -/
theorem not_readsBack_padded :
    ¬ ∀ ps, (optDictProcess (spell ps)).pairs = ps.map entry := by
  intro h
  have hread : (optDictProcess (spell [padded])).pairs =
      [(some "key".toList, some "YQ".toList)] := by decide +kernel
  rw [h] at hread
  exact absurd hread (by decide)

end OptionPair

end Smbusb
