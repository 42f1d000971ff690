import Mathlib.Data.List.Forall2
import Mathlib.Data.List.TakeDrop
import ClassGauge.Json.Read

/-! # Reading back what is written

Texts are written with blanks between their parts and read without regard to them. Whatever stands
behind a text does not change what is read from it, as long as it does not go on with a number.

* `Reads`: a reader takes a given value from a text;
* `reads_quote`, `reads_toString`: strings and numbers are read back as they were written;
* `readEntries_intercalate`: so are lists of entries, each on a line of its own;
* `reads_object`, `reads_array`: and so are the values that hold them.
-/

namespace ClassGauge.Json

/-- A text that is no continuation of a number. -/
def Stops (rest : List Char) : Prop :=
  ∀ c ∈ rest.head?, c.isDigit = false ∧ c ≠ '.' ∧ c ≠ 'e' ∧ c ≠ 'E'

theorem stops_newline (cs : List Char) : Stops ('\n' :: cs) := by
  intro c hc
  cases hc
  decide

theorem stops_comma (cs : List Char) : Stops (',' :: cs) := by
  intro c hc
  cases hc
  decide

/-- From a text, with blanks in front of it or without, `entry` takes the value `x` and leaves what
stands behind the text. -/
def Reads {α : Type} (entry : Reader α) (text : List Char) (x : α) : Prop :=
  ∀ rest, Stops rest → entry (skipBlanks isBlank (text ++ rest)) = some (x, rest)

/-! ## Blanks -/

def indent (n : Nat) (cs : List Char) : List Char :=
  List.replicate n ' ' ++ cs

theorem skipBlanks_indent (n : Nat) (cs : List Char) :
    skipBlanks isBlank (indent n cs) = skipBlanks isBlank cs := by
  unfold skipBlanks isBlank indent
  apply List.dropWhile_append_of_pos
  intro b hb
  rw [List.eq_of_mem_replicate hb]
  rfl

theorem indent_append (n : Nat) (cs rest : List Char) :
    indent n cs ++ rest = indent n (cs ++ rest) :=
  List.append_assoc _ _ _

theorem skipBlanks_cons {c : Char} (hc : isBlank c = false) (cs : List Char) :
    skipBlanks isBlank (c :: cs) = c :: cs := by
  rw [skipBlanks, List.dropWhile_cons_of_neg]
  simp [hc]

/-- A text may be indented. -/
theorem Reads.indent {α : Type} {entry : Reader α} {text : List Char} {x : α}
    (h : Reads entry text x) (n : Nat) : Reads entry (indent n text) x := by
  intro rest hrest
  rw [indent_append, skipBlanks_indent]
  exact h rest hrest

/-! ## Strings -/

/-- The code of a control character is read back from its four hexadecimal digits. -/
theorem numberOfDigits?_escape {n : Nat} (hn : n < 32) :
    numberOfDigits? 16 ['0', '0', digitChar (n / 16), digitChar (n % 16)] = some n := by
  have hzero : digitValue? 16 '0' = some 0 := rfl
  have hhigh := digitValue?_digitChar (n / 16) (by omega)
  have hlow := digitValue?_digitChar (n % 16) (by omega)
  have hsum := Nat.div_add_mod n 16
  simp [numberOfDigits?, hzero, hhigh, hlow, hsum]

theorem scalar?_toNat (c : Char) : scalar? c.toNat = some c := by
  have hvalid : c.toNat.isValidChar := c.valid
  rw [scalar?, if_pos hvalid, Char.ofNat_toNat]

/-- A character is written as a backslash and a letter, by its code, or as itself. -/
theorem escapeChar_cases (c : Char) :
    (∃ letter, unescape? letter = some c ∧ escapeChar c = ['\\', letter]) ∨
    (c.toNat < 32 ∧ escapeChar c =
      ['\\', 'u', '0', '0', digitChar (c.toNat / 16), digitChar (c.toNat % 16)]) ∨
    (c ≠ '"' ∧ c ≠ '\\' ∧ ¬ c.toNat < 32 ∧ escapeChar c = [c]) := by
  unfold escapeChar
  split_ifs with hquote hbackslash hback hfeed hline hreturn htab hcontrol
  · -- Seven characters have a letter of their own, other control characters a code.
    exact Or.inl ⟨'"', by rw [hquote]; rfl, rfl⟩
  · exact Or.inl ⟨'\\', by rw [hbackslash]; rfl, rfl⟩
  · exact Or.inl ⟨'b', by rw [hback]; rfl, rfl⟩
  · exact Or.inl ⟨'f', by rw [hfeed]; rfl, rfl⟩
  · exact Or.inl ⟨'n', by rw [hline]; rfl, rfl⟩
  · exact Or.inl ⟨'r', by rw [hreturn]; rfl, rfl⟩
  · exact Or.inl ⟨'t', by rw [htab]; rfl, rfl⟩
  · exact Or.inr (Or.inl ⟨hcontrol, rfl⟩)
  · exact Or.inr (Or.inr ⟨hquote, hbackslash, hcontrol, rfl⟩)

theorem readString_simple {letter c : Char} (h : unescape? letter = some c)
    (acc cs : List Char) : readString acc ('\\' :: letter :: cs) = readString (c :: acc) cs := by
  rw [readString]
  · rw [h]
  · -- The letter that opens a code stands for no character by itself.
    intro _ _ _ _ _ hletter _
    rw [hletter] at h
    cases h

/-- A character of a string is read back as it was escaped. -/
theorem readString_escapeChar (acc : List Char) (c : Char) (cs : List Char) :
    readString acc (escapeChar c ++ cs) = readString (c :: acc) cs := by
  rcases escapeChar_cases c with
    ⟨letter, hletter, h⟩ | ⟨hcontrol, h⟩ | ⟨hquote, hbackslash, hplain, h⟩
  · rw [h]
    exact readString_simple hletter acc cs
  · have hcode := numberOfDigits?_escape hcontrol
    have hchar := scalar?_toNat c
    rw [h]
    simp only [List.cons_append, List.nil_append, readString, hcode, hchar]
  · -- A plain character is none that the earlier cases of the reader ask for.
    rw [h, List.singleton_append, readString]
    · rw [if_neg hplain]
    · exact hquote
    · intro _ _ _ _ _ hc _
      exact hbackslash hc
    · intro _ _ hc _
      exact hbackslash hc

/-- A string is read back up to its closing quote. -/
theorem readString_escaped (s acc rest : List Char) :
    readString acc (s.flatMap escapeChar ++ '"' :: rest) =
      some (String.ofList (acc.reverse ++ s), rest) := by
  induction s generalizing acc with
  | nil => simp [readString]
  | cons c s ih =>
    rw [List.flatMap_cons, List.append_assoc, readString_escapeChar, ih]
    simp

/-! ## Numbers -/

theorem digitValue?_digitChar_ten : ∀ d < 10, digitValue? 10 (Nat.digitChar d) = some d := by
  decide

/-- One more digit behind a number. -/
theorem numberOfDigits?_concat {ds : List Char} {n d : Nat} (hn : numberOfDigits? 10 ds = some n)
    (hd : d < 10) : numberOfDigits? 10 (ds ++ [Nat.digitChar d]) = some (10 * n + d) := by
  obtain ⟨values, hvalues, rfl⟩ := Option.map_eq_some_iff.mp hn
  have hdigit := digitValue?_digitChar_ten d hd
  rw [numberOfDigits?, List.mapM_append, hvalues]
  simp [hdigit]

/-- The digits of a number are read back as the number. -/
theorem numberOfDigits?_toDigits (n : Nat) : numberOfDigits? 10 (Nat.toDigits 10 n) = some n := by
  induction n using Nat.strongRecOn with
  | ind n ih =>
    by_cases hn : n < 10
    · have hzero : numberOfDigits? 10 [] = some 0 := rfl
      rw [Nat.toDigits_of_lt_base hn, ← List.nil_append [Nat.digitChar n],
        numberOfDigits?_concat hzero hn, Nat.mul_zero, Nat.zero_add]
    · have hdiv : n / 10 < n := by omega
      have hmod : n % 10 < 10 := by omega
      rw [Nat.toDigits_of_base_le (by omega) (by omega), numberOfDigits?_concat (ih _ hdiv) hmod,
        Nat.div_add_mod]

theorem isDigit_of_mem_toDigits (n : Nat) : ∀ c ∈ Nat.toDigits 10 n, c.isDigit = true :=
  fun _ => Nat.isDigit_of_mem_toDigits (by omega) (by omega)

/-- The digits of a number begin with a digit. -/
theorem exists_toDigits_eq_cons (n : Nat) :
    ∃ d ds, Nat.toDigits 10 n = d :: ds ∧ d.isDigit = true := by
  obtain ⟨d, ds, hds⟩ := List.exists_cons_of_ne_nil (Nat.toDigits_ne_nil (n := n) (b := 10))
  exact ⟨d, ds, hds, isDigit_of_mem_toDigits n d (hds ▸ List.mem_cons_self)⟩

theorem digitChar_ne_zero : ∀ d < 10, d ≠ 0 → Nat.digitChar d ≠ '0' := by
  decide

/-- Only zero is written with a zero in front. -/
theorem toDigits_ne_zero_cons {n : Nat} (hn : n ≠ 0) (cs : List Char) :
    Nat.toDigits 10 n ≠ '0' :: cs := by
  induction n using Nat.strongRecOn generalizing cs with
  | ind n ih =>
    intro h
    by_cases hlt : n < 10
    · rw [Nat.toDigits_of_lt_base hlt] at h
      exact digitChar_ne_zero n hlt hn (List.cons.inj h).1
    · -- The first digit is that of the number without its last digit.
      rw [Nat.toDigits_of_base_le (by omega) (by omega)] at h
      obtain ⟨d, ds, hds, _⟩ := exists_toDigits_eq_cons (n / 10)
      rw [hds, List.cons_append] at h
      have hd : d = '0' := (List.cons.inj h).1
      exact ih (n / 10) (by omega) (by omega) ds (hd ▸ hds)

/-- The digits in front of a text that does not go on with digits. -/
theorem span_isDigit_append {ds rest : List Char} (hds : ∀ c ∈ ds, c.isDigit = true)
    (hrest : Stops rest) : (ds ++ rest).span Char.isDigit = (ds, rest) := by
  have hnone : rest.takeWhile Char.isDigit = [] ∧ rest.dropWhile Char.isDigit = rest := by
    cases rest with
    | nil => exact ⟨rfl, rfl⟩
    | cons c rest =>
      have hc : ¬ c.isDigit = true := by simp [(hrest c rfl).1]
      exact ⟨List.takeWhile_cons_of_neg hc, List.dropWhile_cons_of_neg hc⟩
  rw [List.span_eq_takeWhile_dropWhile, List.takeWhile_append_of_pos hds,
    List.dropWhile_append_of_pos hds, hnone.1, hnone.2, List.append_nil]

theorem readDigits_toDigits (n : Nat) {rest : List Char} (hrest : Stops rest) :
    readDigits (Nat.toDigits 10 n ++ rest) = some (Nat.toDigits 10 n, rest) := by
  unfold readDigits
  rw [span_isDigit_append (isDigit_of_mem_toDigits n) hrest]
  split
  · next h =>
    have hnil : Nat.toDigits 10 n = [] := congrArg Prod.fst h
    exact absurd hnil Nat.toDigits_ne_nil
  · next d ds _ h =>
    have hzero : Nat.toDigits 10 n = '0' :: d :: ds := congrArg Prod.fst h
    by_cases hn : n = 0
    · rw [hn, Nat.toDigits_zero] at hzero
      cases hzero
    · exact absurd hzero (toDigits_ne_zero_cons hn _)
  · rfl

theorem skipFraction_of_stops {rest : List Char} (hrest : Stops rest) :
    skipFraction rest = some (false, rest) := by
  unfold skipFraction
  split
  · next cs => exact absurd rfl (hrest '.' rfl).2.1
  · rfl

theorem skipExponent_of_stops {rest : List Char} (hrest : Stops rest) :
    skipExponent rest = some (false, rest) := by
  unfold skipExponent
  split
  · next cs => exact absurd rfl (hrest 'e' rfl).2.2.1
  · next cs => exact absurd rfl (hrest 'E' rfl).2.2.2
  · rfl

theorem ne_of_isDigit {c d : Char} (hc : c.isDigit = true) (hd : d.isDigit = false) : c ≠ d := by
  intro h
  rw [h, hd] at hc
  cases hc

theorem skipSign_toDigits (n : Nat) (rest : List Char) :
    skipSign (Nat.toDigits 10 n ++ rest) = (false, Nat.toDigits 10 n ++ rest) := by
  obtain ⟨d, ds, hds, hd⟩ := exists_toDigits_eq_cons n
  rw [hds, List.cons_append]
  unfold skipSign
  split
  · next h => exact absurd (List.cons.inj h).1 (ne_of_isDigit hd rfl)
  · rfl

/-- A number is read back from its digits. -/
theorem readNumber_toDigits (n : Nat) {rest : List Char} (hrest : Stops rest) :
    readNumber (Nat.toDigits 10 n ++ rest) = some (.natural n, rest) := by
  simp [readNumber, skipSign_toDigits, readDigits_toDigits n hrest, skipFraction_of_stops hrest,
    skipExponent_of_stops hrest, numberOfDigits?_toDigits]

/-- A value that begins with a digit is a number. -/
theorem readValue_of_isDigit {c : Char} (hc : c.isDigit = true) (depth : Nat) (cs : List Char) :
    readValue depth (c :: cs) = readNumber (c :: cs) := by
  rw [readValue.eq_def]
  -- No value of any other kind begins with a digit.
  split
  · next h => exact absurd (List.cons.inj h).1 (ne_of_isDigit hc rfl)
  · next h => exact absurd (List.cons.inj h).1 (ne_of_isDigit hc rfl)
  · next h => exact absurd (List.cons.inj h).1 (ne_of_isDigit hc rfl)
  · next h => exact absurd (List.cons.inj h).1 (ne_of_isDigit hc rfl)
  · next h => exact absurd (List.cons.inj h).1 (ne_of_isDigit hc rfl)
  · next h => exact absurd (List.cons.inj h).1 (ne_of_isDigit hc rfl)
  · rfl

/-! ## Strings and numbers as values -/

theorem toList_quote (s : String) :
    (quote s).toList = '"' :: (s.toList.flatMap escapeChar ++ ['"']) := by
  rw [quote, String.toList_ofList]

theorem readString_quote (s : String) (rest : List Char) :
    readString [] (s.toList.flatMap escapeChar ++ '"' :: rest) = some (s, rest) := by
  rw [readString_escaped, List.reverse_nil, List.nil_append, String.ofList_toList]

theorem isBlank_quote : isBlank '"' = false := rfl

/-- A string is read back as it was written. -/
theorem reads_quote (depth : Nat) (s : String) :
    Reads (readValue depth) (quote s).toList (.string s) := by
  intro rest _
  rw [toList_quote, List.cons_append, List.append_assoc, List.singleton_append,
    skipBlanks_cons isBlank_quote, readValue, readString_quote, Option.map_some]

theorem isBlank_of_isDigit {c : Char} (hc : c.isDigit = true) : isBlank c = false := by
  have hblank := ne_of_isDigit hc (d := ' ') rfl
  have hline := ne_of_isDigit hc (d := '\n') rfl
  have htab := ne_of_isDigit hc (d := '\t') rfl
  have hreturn := ne_of_isDigit hc (d := '\r') rfl
  simp [isBlank, hblank, hline, htab, hreturn]

/-- A number is read back as it was written. -/
theorem reads_toString (depth n : Nat) :
    Reads (readValue depth) (toString n).toList (.natural n) := by
  intro rest hrest
  obtain ⟨d, ds, hds, hd⟩ := exists_toDigits_eq_cons n
  have hnumber := readNumber_toDigits n hrest
  rw [Nat.toString_eq_repr, Nat.toList_repr]
  rw [hds, List.cons_append] at hnumber ⊢
  rw [skipBlanks_cons (isBlank_of_isDigit hd), readValue_of_isDigit hd, hnumber]

/-! ## Entries -/

section Entries

variable {α : Type} {entry : Reader α} {close : Char} {fuel : Nat} {cs rest after : List Char}
  {x : α}

/-- An entry with a comma behind it is followed by others. -/
theorem readEntries_comma (hx : entry (skipBlanks isBlank cs) = some (x, rest))
    (hrest : skipBlanks isBlank rest = ',' :: after) :
    readEntries entry close (fuel + 1) cs =
      (readEntries entry close fuel after).map fun (xs, rest) => (x :: xs, rest) := by
  rw [readEntries, hx]
  simp only [hrest, if_true]

/-- An entry with the closing bracket behind it is the last one. -/
theorem readEntries_close (hclose : close ≠ ',') (hx : entry (skipBlanks isBlank cs) = some (x, rest))
    (hrest : skipBlanks isBlank rest = close :: after) :
    readEntries entry close (fuel + 1) cs = some ([x], after) := by
  rw [readEntries, hx]
  simp only [hrest, if_neg hclose, if_true]

/-- Blanks in front of the first entry make no difference. -/
theorem readEntries_newline (cs : List Char) :
    readEntries entry close fuel ('\n' :: cs) = readEntries entry close fuel cs := by
  have hskip : skipBlanks isBlank ('\n' :: cs) = skipBlanks isBlank cs := rfl
  cases fuel with
  | zero => rfl
  | succ fuel => rw [readEntries, readEntries, hskip]

/-- Where entries are read, no closing bracket stands in front. -/
theorem skipBlanks_ne_of_readEntries (hrefuse : ∀ cs, entry (close :: cs) = none)
    {xs : List α} (h : readEntries entry close fuel cs = some (xs, rest)) (after : List Char) :
    skipBlanks isBlank cs ≠ close :: after := by
  intro hskip
  cases fuel with
  | zero => cases h
  | succ fuel =>
    rw [readEntries, hskip, hrefuse] at h
    cases h

/-- Entries on lines of their own are read back one by one, up to the closing bracket. -/
theorem readEntries_intercalate (hcomma : close ≠ ',') (hblank : isBlank close = false)
    {texts : List (List Char)} {xs : List α} (h : List.Forall₂ (Reads entry) texts xs)
    (hne : texts ≠ []) (hfuel : texts.length ≤ fuel) (n : Nat) (rest : List Char) :
    readEntries entry close fuel
        ([',', '\n'].intercalate texts ++ '\n' :: indent n (close :: rest)) = some (xs, rest) := by
  induction h generalizing fuel with
  | nil => exact absurd rfl hne
  | @cons text x texts xs hx hxs ih =>
    obtain ⟨fuel, rfl⟩ : ∃ k, fuel = k + 1 := by
      rw [List.length_cons] at hfuel
      exact ⟨fuel - 1, by omega⟩
    -- Behind the last entry comes the bracket, behind any other a comma and the rest.
    cases hxs with
    | nil =>
      have hclosing : skipBlanks isBlank ('\n' :: indent n (close :: rest)) = close :: rest := by
        have hskip : skipBlanks isBlank ('\n' :: indent n (close :: rest)) =
            skipBlanks isBlank (indent n (close :: rest)) := rfl
        rw [hskip, skipBlanks_indent, skipBlanks_cons hblank]
      rw [List.intercalate_singleton]
      exact readEntries_close hcomma (hx _ (stops_newline _)) hclosing
    | @cons text' x' texts xs hx' hxs =>
      have hlength : (text' :: texts).length ≤ fuel := by simpa using hfuel
      have hmore := ih (List.cons_ne_nil _ _) hlength
      rw [List.intercalate_cons_cons, List.append_assoc, List.append_assoc, List.cons_append,
        List.singleton_append, readEntries_comma (hx _ (stops_comma _)) (skipBlanks_cons rfl _),
        readEntries_newline, hmore, Option.map_some]

/-- There are no more entries than characters. -/
theorem length_le_length_intercalate (texts : List (List Char)) :
    texts.length ≤ ([',', '\n'].intercalate texts).length + 1 := by
  induction texts with
  | nil => exact Nat.zero_le _
  | cons text texts ih =>
    cases texts with
    | nil => simp
    | cons text' texts =>
      rw [List.intercalate_cons_cons, List.length_append, List.length_append]
      simp only [List.length_cons] at ih ⊢
      omega

/-- The text behind an opening bracket is long enough for all its entries to be read. -/
theorem readEntries_lines (hcomma : close ≠ ',') (hblank : isBlank close = false)
    {texts : List (List Char)} {xs : List α} (h : List.Forall₂ (Reads entry) texts xs)
    (hne : texts ≠ []) {n : Nat}
    (hcs : cs = '\n' :: ([',', '\n'].intercalate texts ++ '\n' :: indent n (close :: rest))) :
    readEntries entry close cs.length cs = some (xs, rest) := by
  have hlength := length_le_length_intercalate texts
  have hfuel : texts.length ≤ cs.length := by
    rw [hcs, List.length_cons, List.length_append]
    omega
  generalize cs.length = fuel at hfuel ⊢
  rw [hcs, readEntries_newline]
  exact readEntries_intercalate hcomma hblank h hne hfuel n rest

end Entries

/-! ## Objects and arrays -/

variable {depth : Nat}

/-- A field is read back from its key and the text of its value. -/
theorem Reads.field {item : Reader Value} {text : List Char} {v : Value} (h : Reads item text v)
    (key : String) :
    Reads (readField item) ((quote key).toList ++ ':' :: ' ' :: text) (key, v) := by
  intro rest hrest
  have hskip : skipBlanks isBlank (' ' :: (text ++ rest)) = skipBlanks isBlank (text ++ rest) := rfl
  have hcolon : skipBlanks isBlank (':' :: ' ' :: (text ++ rest)) = ':' :: ' ' :: (text ++ rest) := rfl
  rw [toList_quote]
  simp only [List.cons_append, List.append_assoc, List.nil_append]
  rw [skipBlanks_cons isBlank_quote, readField, readString_quote]
  simp only [hcolon, hskip, h rest hrest, Option.map_some]

theorem readField_close (item : Reader Value) (cs : List Char) :
    readField item ('\x7d' :: cs) = none := rfl

theorem readValue_close (cs : List Char) : readValue depth (']' :: cs) = none := by
  cases depth <;> rfl

theorem readValue_object {cs rest : List Char} {fields : List (String × Value)}
    (h : readEntries (readField (readValue depth)) '\x7d' cs.length cs = some (fields, rest)) :
    readValue (depth + 1) ('\x7b' :: cs) = some (.object fields, rest) := by
  have hopen := skipBlanks_ne_of_readEntries (readField_close _) h
  rw [readValue]
  split
  · next after hclose => exact absurd hclose (hopen after)
  · rw [h, Option.map_some]

theorem readValue_array {cs rest : List Char} {items : List Value}
    (h : readEntries (readValue depth) ']' cs.length cs = some (items, rest)) :
    readValue (depth + 1) ('[' :: cs) = some (.array items, rest) := by
  have hopen := skipBlanks_ne_of_readEntries readValue_close h
  rw [readValue]
  split
  · next after hclose => exact absurd hclose (hopen after)
  · rw [h, Option.map_some]

/-- An object with fields is read back from the texts of its fields. -/
theorem reads_object {texts : List (List Char)} {fields : List (String × Value)}
    (h : List.Forall₂ (Reads (readField (readValue depth))) texts fields) (hne : texts ≠ [])
    (n : Nat) : Reads (readValue (depth + 1))
      ('\x7b' :: '\n' :: ([',', '\n'].intercalate texts ++ '\n' :: indent n ['\x7d']))
      (.object fields) := by
  intro rest _
  simp only [List.cons_append, List.append_assoc, indent_append, List.nil_append]
  rw [skipBlanks_cons rfl]
  apply readValue_object
  exact readEntries_lines (by decide) rfl h hne rfl

/-- An array with items is read back from the texts of its items. -/
theorem reads_array {texts : List (List Char)} {items : List Value}
    (h : List.Forall₂ (Reads (readValue depth)) texts items) (hne : texts ≠ [])
    (n : Nat) : Reads (readValue (depth + 1))
      ('[' :: '\n' :: ([',', '\n'].intercalate texts ++ '\n' :: indent n [']']))
      (.array items) := by
  intro rest _
  simp only [List.cons_append, List.append_assoc, indent_append, List.nil_append]
  rw [skipBlanks_cons rfl]
  apply readValue_array
  exact readEntries_lines (by decide) rfl h hne rfl

end ClassGauge.Json
