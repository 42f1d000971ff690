import Mathlib.Data.Set.Card
import ClassGauge.Measure.Words
import ClassGauge.Proofs.Sorting

/-! # Words and longest runs

A text is read from left to right with the unfinished word held back. What comes of it are the
longest runs of word characters: the text is cut at every other character and nothing empty is kept.
A pattern that asks for a boundary at both ends and takes as many word characters as it can finds the
same words.

* `MaximalRun`, `wordSet`: a longest run in a text, and the words of a text as a set;
* `runs`, `runs_append`: the runs in order, and where a text can be cut in two;
* `scanWords_eq`, `mem_runs_iff`: a reading finds the runs, and these are the longest ones;
* `findMatches`, `findMatches_eq_runs`: the words by leftmost matches of a greedy pattern;
* `uniqueWords_of_runs`: the number of different words, of a text and of texts laid end to end.
-/

namespace ClassGauge

/-! ## Longest runs -/

/-- The characters `w` stand in `text` as a longest run of word characters: there is no word
character right in front of them and none right behind them. -/
def MaximalRun (text w : List Char) : Prop :=
  ∃ before after, text = before ++ w ++ after ∧ w ≠ [] ∧ (∀ c ∈ w, isWordChar c = true) ∧
    (∀ c ∈ before.getLast?, isWordChar c = false) ∧ ∀ c ∈ after.head?, isWordChar c = false

/-- The words of a text. -/
def wordSet (text : String) : Set String :=
  {w | MaximalRun text.toList w.toList}

/-- What is left of a text, in order, if it is cut at every character that is no word character. -/
def runs (cs : List Char) : List (List Char) :=
  (cs.splitOnP fun c => !isWordChar c).filter (· ≠ [])

theorem isWordChar_iff (c : Char) : isWordChar c = true ↔
    ('0' ≤ c ∧ c ≤ '9') ∨ ('A' ≤ c ∧ c ≤ 'Z') ∨ ('a' ≤ c ∧ c ≤ 'z') ∨ c = '_' := by
  have hclasses : isWordChar c = (decide ('A' ≤ c ∧ c ≤ 'Z') || ('a' ≤ c && c ≤ 'z') ||
      ('0' ≤ c && c ≤ '9') || c = '_') := rfl
  simp only [hclasses, Bool.or_eq_true, Bool.and_eq_true, decide_eq_true_eq]
  tauto

/-- A fact holds of every text if it holds of texts without a separator, and of a text behind a
separator and whatever word characters stand in front of it. -/
@[elab_as_elim]
theorem separatorInduction {motive : List Char → Prop}
    (word : ∀ w, (∀ c ∈ w, isWordChar c = true) → motive w)
    (separator : ∀ w c cs, (∀ c ∈ w, isWordChar c = true) → isWordChar c = false → motive cs →
      motive (w ++ c :: cs)) (cs : List Char) : motive cs := by
  suffices h : ∀ w, (∀ c ∈ w, isWordChar c = true) → motive (w ++ cs) by
    exact h [] (by simp)
  induction cs with
  | nil =>
    intro w hw
    rw [List.append_nil]
    exact word w hw
  | cons c cs ih =>
    intro w hw
    cases hc : isWordChar c with
    | false => exact separator w c cs hw hc (ih [] (by simp))
    | true =>
      -- The character goes on with the run in front of it.
      rw [List.append_cons]
      apply ih
      intro d hd
      rcases List.mem_append.mp hd with hd | hd
      · exact hw d hd
      · rw [List.mem_singleton.mp hd]
        exact hc

section Runs

variable {c : Char} {w xs ys : List Char}

@[simp] theorem runs_nil : runs [] = [] := by
  simp [runs, List.splitOnP_nil]

/-- A text can be cut at a separator. -/
theorem runs_append_cons (hc : isWordChar c = false) (xs ys : List Char) :
    runs (xs ++ c :: ys) = runs xs ++ runs ys := by
  rw [runs, List.splitOnP_append_cons xs ys (by simp [hc]), List.filter_append]
  rfl

theorem runs_cons (hc : isWordChar c = false) (ys : List Char) : runs (c :: ys) = runs ys := by
  simpa using runs_append_cons hc [] ys

theorem runs_concat (hc : isWordChar c = false) (xs : List Char) :
    runs (xs ++ [c]) = runs xs := by
  simpa using runs_append_cons hc xs []

/-- Word characters alone are one run. -/
theorem runs_of_word (hne : w ≠ []) (hw : ∀ c ∈ w, isWordChar c = true) : runs w = [w] := by
  rw [runs, List.splitOnP_eq_singleton (by simpa using hw)]
  simp [hne]

/-- A text can be cut in two wherever no run goes on. -/
theorem runs_append (h : (∀ c ∈ xs.getLast?, isWordChar c = false) ∨
    ∀ c ∈ ys.head?, isWordChar c = false) : runs (xs ++ ys) = runs xs ++ runs ys := by
  rcases h with h | h
  · rcases List.eq_nil_or_concat' xs with rfl | ⟨xs, c, rfl⟩
    · simp
    · have hc : isWordChar c = false := h c (by simp)
      rw [List.append_assoc, List.singleton_append, runs_append_cons hc, runs_concat hc]
  · cases ys with
    | nil => simp
    | cons c ys =>
      have hc : isWordChar c = false := h c (by simp)
      rw [runs_append_cons hc, runs_cons hc]

/-- A run of a text stands in it as a longest run, and every longest run is one of them. -/
theorem mem_runs_iff {cs : List Char} : w ∈ runs cs ↔ MaximalRun cs w := by
  constructor
  · intro h
    induction cs using separatorInduction with
    | word v hv =>
      have hne : v ≠ [] := by
        rintro rfl
        simp at h
      rw [runs_of_word hne hv, List.mem_singleton] at h
      subst h
      exact ⟨[], [], by simp, hne, hv, by simp, by simp⟩
    | separator v c cs hv hc ih =>
      rw [runs_append_cons hc, List.mem_append] at h
      rcases h with h | h
      · have hne : v ≠ [] := by
          rintro rfl
          simp at h
        rw [runs_of_word hne hv, List.mem_singleton] at h
        subst h
        exact ⟨[], c :: cs, by simp, hne, hv, by simp, by simpa using hc⟩
      · -- The run stands behind the separator, which is in front of it if nothing else is.
        rcases ih h with ⟨before, after, rfl, hne, hw, hbefore, hafter⟩
        refine ⟨v ++ c :: before, after, by simp, hne, hw, ?_, hafter⟩
        intro d hd
        cases hlast : before.getLast? with
        | none =>
          have hcd : c = d := by simpa [List.getLast?_cons, hlast] using hd
          exact hcd ▸ hc
        | some e =>
          have hed : e = d := by simpa [List.getLast?_cons, hlast] using hd
          exact hbefore d (by simp [hlast, hed])
  · rintro ⟨before, after, rfl, hne, hw, hbefore, hafter⟩
    rw [runs_append (Or.inr hafter), runs_append (Or.inl hbefore), runs_of_word hne hw]
    simp

end Runs

/-! ## Reading a text -/

/-- A reading adds the runs that it meets, the unfinished one in front of the text included. -/
theorem scanWords_eq {run : List Char} (hrun : ∀ c ∈ run, isWordChar c = true)
    (found : List String) (cs : List Char) : scanWords run found cs =
      ((runs (run.reverse ++ cs)).map String.ofList).reverse ++ found := by
  have hclose : ∀ run : List Char, (∀ c ∈ run, isWordChar c = true) → ∀ found,
      closeRun run found = ((runs run.reverse).map String.ofList).reverse ++ found := by
    intro run hrun found
    cases hempty : run.isEmpty with
    | true =>
      have hnil : run = [] := List.isEmpty_iff.mp hempty
      simp [closeRun, hnil]
    | false =>
      have hne : run.reverse ≠ [] := by simpa using hempty
      rw [closeRun, hempty, runs_of_word hne (by simpa using hrun)]
      simp
  induction cs generalizing run found with
  | nil =>
    rw [scanWords, List.append_nil]
    exact hclose run hrun found
  | cons c cs ih =>
    cases hc : isWordChar c with
    | true =>
      have hlonger : ∀ d ∈ c :: run, isWordChar d = true := by
        intro d hd
        rcases List.mem_cons.mp hd with rfl | hd
        · exact hc
        · exact hrun d hd
      rw [scanWords, if_pos hc, ih hlonger, List.reverse_cons, List.append_assoc,
        List.singleton_append]
    | false =>
      -- The run ends here, and the reading goes on without one.
      rw [scanWords, if_neg (by simp [hc]), ih (by simp), hclose run hrun, runs_append_cons hc]
      simp

/-- The words of a text are its runs, the last one first. -/
theorem reverse_words (text : String) :
    (words text).reverse = (runs text.toList).map String.ofList := by
  rw [words, scanWords_eq (by simp)]
  simp

theorem mem_wordSet {w text : String} : w ∈ wordSet text ↔ w.toList ∈ runs text.toList :=
  mem_runs_iff.symm

theorem mem_wordSet_iff_mem_words {w text : String} : w ∈ wordSet text ↔ w ∈ words text := by
  rw [← List.mem_reverse, reverse_words, mem_wordSet, List.mem_map]
  constructor
  · intro h
    exact ⟨w.toList, h, String.ofList_toList⟩
  · rintro ⟨cs, h, rfl⟩
    rwa [String.toList_ofList]

theorem wordSet_eq_coe (text : String) : wordSet text = ↑(words text).toFinset := by
  ext w
  rw [mem_wordSet_iff_mem_words, Finset.mem_coe, List.mem_toFinset]

theorem finite_wordSet (text : String) : (wordSet text).Finite := by
  rw [wordSet_eq_coe]
  exact Finset.finite_toSet _

theorem uniqueWords_eq_ncard (text : String) : uniqueWords text = (wordSet text).ncard := by
  have hdistinct : (words text).eraseDups.toFinset = (words text).toFinset := by
    ext w
    rw [List.mem_toFinset, List.mem_toFinset, List.mem_eraseDups]
  rw [wordSet_eq_coe, Set.ncard_coe_finset, ← hdistinct,
    List.toFinset_card_of_nodup (nodup_eraseDups _), uniqueWords]

/-! ## A pattern for words -/

/-- Whether a word begins or ends between two characters, or at an end of the text. -/
def isBoundary (before after : Option Char) : Bool :=
  before.any isWordChar != after.any isWordChar

/-- What one or more word characters with a boundary behind them take off the front of a text; they
take as many as they can and give back if there is no boundary. -/
def longestMatch? : List Char → Option (List Char)
  | [] => none
  | c :: cs =>
    if isWordChar c then
      match longestMatch? cs with
      | some w => some (c :: w)
      | none => if isBoundary (some c) cs.head? then some [c] else none
    else none

/-- The matches of a boundary, one or more word characters and a boundary, each the leftmost behind
the one in front of it. The first `taken` characters belong to a match already, and `before` is the
last character in front of the text. -/
def findMatches : (before : Option Char) → (taken : Nat) → List Char → List (List Char)
  | _, _, [] => []
  | _, taken + 1, c :: cs => findMatches (some c) taken cs
  | before, 0, c :: cs =>
    match if isBoundary before (some c) then longestMatch? (c :: cs) else none with
    | some w => w :: findMatches (some c) (w.length - 1) cs
    | none => findMatches (some c) 0 cs

section Pattern

variable {before : Option Char} {c : Char} {w ys : List Char}

/-- A match takes a whole run. -/
theorem longestMatch?_of_word (hne : w ≠ []) (hw : ∀ c ∈ w, isWordChar c = true)
    (hys : ys.head?.any isWordChar = false) : longestMatch? (w ++ ys) = some w := by
  induction w with
  | nil => exact absurd rfl hne
  | cons c w ih =>
    have hc : isWordChar c = true := hw c List.mem_cons_self
    rw [List.cons_append, longestMatch?, if_pos hc]
    cases w with
    | nil =>
      -- The last character of the run: no match begins behind it, but there is a boundary.
      have hnone : longestMatch? ys = none := by
        cases ys with
        | nil => rfl
        | cons d ys =>
          have hd : isWordChar d = false := by simpa using hys
          rw [longestMatch?, if_neg (by simp [hd])]
      have hboundary : isBoundary (some c) ys.head? = true := by
        rw [isBoundary, hys, Option.any_some, hc]
        rfl
      rw [List.nil_append, hnone]
      exact if_pos hboundary
    | cons d w =>
      rw [ih (List.cons_ne_nil d w) fun e he => hw e (List.mem_cons_of_mem c he)]

/-- No match begins at a separator. -/
theorem findMatches_cons (hc : isWordChar c = false) (before : Option Char) (cs : List Char) :
    findMatches before 0 (c :: cs) = findMatches (some c) 0 cs := by
  have hnone : longestMatch? (c :: cs) = none := by
    rw [longestMatch?, if_neg (by simp [hc])]
  rw [findMatches, hnone, ite_self]

/-- Characters that belong to a match are passed over. -/
theorem findMatches_taken (before : Option Char) (w ys : List Char) :
    ∃ last, findMatches before w.length (w ++ ys) = findMatches last 0 ys := by
  induction w generalizing before with
  | nil => exact ⟨before, rfl⟩
  | cons c w ih => exact ih (some c)

/-- The search finds a run and goes on behind it. -/
theorem findMatches_word (hbefore : before.any isWordChar = false) (hne : w ≠ [])
    (hw : ∀ c ∈ w, isWordChar c = true) (hys : ys.head?.any isWordChar = false) :
    ∃ last, findMatches before 0 (w ++ ys) = w :: findMatches last 0 ys := by
  have hmatch := longestMatch?_of_word hne hw hys
  cases w with
  | nil => exact absurd rfl hne
  | cons c w =>
    have hboundary : isBoundary before (some c) = true := by
      rw [isBoundary, hbefore, Option.any_some, hw c List.mem_cons_self]
      rfl
    rcases findMatches_taken (some c) w ys with ⟨last, hlast⟩
    refine ⟨last, ?_⟩
    rw [List.cons_append] at hmatch ⊢
    rw [findMatches, if_pos hboundary, hmatch]
    exact congrArg _ hlast

/-- The pattern finds the runs of a text. -/
theorem findMatches_eq_runs (hbefore : before.any isWordChar = false) (cs : List Char) :
    findMatches before 0 cs = runs cs := by
  induction cs using separatorInduction generalizing before with
  | word w hw =>
    by_cases hne : w = []
    · rw [hne, runs_nil]
      exact findMatches.eq_1 _ _
    · -- At the end of the text there is a boundary.
      have hend : ([] : List Char).head?.any isWordChar = false := rfl
      rcases findMatches_word hbefore hne hw hend with ⟨last, hlast⟩
      rw [List.append_nil] at hlast
      rw [hlast, runs_of_word hne hw]
      exact congrArg _ (findMatches.eq_1 _ _)
  | separator w c cs hw hc ih =>
    have hrest : ∀ before, findMatches before 0 (c :: cs) = runs cs := by
      intro before
      rw [findMatches_cons hc, ih (by simpa using hc)]
    rw [runs_append_cons hc]
    by_cases hne : w = []
    · rw [hne, runs_nil, List.nil_append, List.nil_append, hrest]
    · -- In front of a separator there is one as well.
      have hend : (c :: cs).head?.any isWordChar = false := by simpa using hc
      rcases findMatches_word hbefore hne hw hend with ⟨last, hlast⟩
      rw [hlast, hrest, runs_of_word hne hw, List.singleton_append]

end Pattern

/-! ## Texts laid end to end -/

/-- With a separator between two texts there are the words of both. -/
theorem wordSet_append_separator {c : Char} (hc : isWordChar c = false) (s t : String) :
    wordSet (s.push c ++ t) = wordSet s ∪ wordSet t := by
  ext w
  have htext : (s.push c ++ t).toList = s.toList ++ c :: t.toList := by simp
  rw [Set.mem_union, mem_wordSet, mem_wordSet, mem_wordSet, htext, runs_append_cons hc,
    List.mem_append]

/-- Of the runs of a text the last at most goes on in the text behind it. -/
theorem exists_run_of_append (cs ds : List Char) :
    ∃ last, ∀ w ∈ runs cs, w = last ∨ w ∈ runs (cs ++ ds) := by
  induction cs using separatorInduction with
  | word v hv =>
    refine ⟨v, ?_⟩
    intro w hw
    by_cases hne : v = []
    · simp [hne] at hw
    · rw [runs_of_word hne hv, List.mem_singleton] at hw
      exact Or.inl hw
  | separator v c cs hv hc ih =>
    rcases ih with ⟨last, hlast⟩
    refine ⟨last, ?_⟩
    intro w hw
    rw [List.append_assoc, List.cons_append, runs_append_cons hc, List.mem_append]
    rw [runs_append_cons hc, List.mem_append] at hw
    -- A run in front of a separator is not touched by what is added.
    rcases hw with hw | hw
    · exact Or.inr (Or.inl hw)
    · exact (hlast w hw).imp_right Or.inr

/-- Without a separator one word at most is lost. -/
theorem exists_wordSet_subset_insert (s t : String) :
    ∃ last, wordSet s ⊆ insert last (wordSet (s ++ t)) := by
  rcases exists_run_of_append s.toList t.toList with ⟨last, hlast⟩
  refine ⟨String.ofList last, ?_⟩
  intro w hw
  rcases hlast w.toList (mem_wordSet.mp hw) with h | h
  · rw [← h, String.ofList_toList]
    exact Set.mem_insert w _
  · apply Set.mem_insert_of_mem
    rwa [mem_wordSet, String.toList_append]

/-- The number of different words of a text is the number of its different longest runs of figures,
letters and underscores. They are what leftmost matches of the greedy pattern are, in the same order.
Two texts with any other character between them have the words of both, and so no fewer than either;
with nothing between them at most one word of the first is lost. -/
theorem uniqueWords_of_runs :
    (∀ c, isWordChar c = true ↔
      ('0' ≤ c ∧ c ≤ '9') ∨ ('A' ≤ c ∧ c ≤ 'Z') ∨ ('a' ≤ c ∧ c ≤ 'z') ∨ c = '_') ∧
    (∀ text, (words text).reverse = (findMatches none 0 text.toList).map String.ofList) ∧
    (∀ text, (wordSet text).Finite ∧ uniqueWords text = (wordSet text).ncard) ∧
    (∀ s c t, isWordChar c = false →
      wordSet (s.push c ++ t) = wordSet s ∪ wordSet t ∧
      uniqueWords (s.push c ++ t) = (wordSet s ∪ wordSet t).ncard ∧
      uniqueWords s ≤ uniqueWords (s.push c ++ t) ∧
      uniqueWords t ≤ uniqueWords (s.push c ++ t)) ∧
    ∀ s t, uniqueWords s ≤ uniqueWords (s ++ t) + 1 := by
  refine ⟨isWordChar_iff, ?_, ?_, ?_, ?_⟩
  · intro text
    rw [reverse_words, findMatches_eq_runs rfl]
  · intro text
    exact ⟨finite_wordSet text, uniqueWords_eq_ncard text⟩
  · intro s c t hc
    have hunion := wordSet_append_separator hc s t
    have hfinite : (wordSet s ∪ wordSet t).Finite := (finite_wordSet s).union (finite_wordSet t)
    simp only [uniqueWords_eq_ncard, hunion]
    refine ⟨trivial, trivial, ?_, ?_⟩
    · exact Set.ncard_le_ncard Set.subset_union_left hfinite
    · exact Set.ncard_le_ncard Set.subset_union_right hfinite
  · -- Only the last run can change, so at most one word is lost.
    intro s t
    rcases exists_wordSet_subset_insert s t with ⟨last, hlast⟩
    rw [uniqueWords_eq_ncard, uniqueWords_eq_ncard]
    calc (wordSet s).ncard
      _ ≤ (insert last (wordSet (s ++ t))).ncard :=
        Set.ncard_le_ncard hlast ((finite_wordSet _).insert last)
      _ ≤ (wordSet (s ++ t)).ncard + 1 := Set.ncard_insert_le _ _

/-- With `b` right behind it the last word of `ab a` becomes `ab`, which is a word of the text already;
with a blank in between there is one word more. -/
theorem uniqueWords_of_runs_fused :
    isWordChar ' ' = false ∧ uniqueWords "ab a" = 2 ∧ uniqueWords ("ab a" ++ "b") = 1 ∧
      uniqueWords "ab a" ≤ uniqueWords ("ab a" ++ "b") + 1 ∧
      uniqueWords ("ab a".push ' ' ++ "b") = 3 ∧
      uniqueWords ("ab a".push ' ' ++ "b") = (wordSet "ab a" ∪ wordSet "b").ncard := by
  rcases uniqueWords_of_runs with ⟨_, _, _, hseparator, hjoin⟩
  refine ⟨by decide, by decide, by decide, hjoin "ab a" "b", by decide, ?_⟩
  exact (hseparator "ab a" ' ' "b" (by decide)).2.1

end ClassGauge
