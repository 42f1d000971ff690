import Mathlib.Data.List.Infix
import ClassGauge.Proofs.Changes

/-! # Patterns for beginnings and ends

Most patterns in use ask how a path begins and how it ends: `src/**/*.ts`, `**/*.d.ts`,
`src/generated/**`. Matching tries runs of all lengths for each of the wildcards and gives up early
when the text runs out. For these patterns the outcome is a plain comparison of texts, whatever the
texts between the wildcards are and wherever a path has its slashes and dots.

* `exists_suffix_of_tryRuns`, `tryRuns_append`: where an attempt to match with a wildcard in front
  succeeds;
* `matchTokens_sequence_literals`, `matchTokens_components_literals`: matching an end of a text;
* `PlainPattern`, `compile_text`, `isMatch_tokens`: the patterns, what they are compiled to, and which
  paths match;
* `selects_of_plainPatterns`: what settings with such patterns select.
-/

namespace ClassGauge

namespace Glob

variable {text front back : List Char} {ts : List Token} {next : List Char → Outcome}
  {slashOnly : Bool}

/-! ## Attempts -/

theorem exists_suffix_of_sweep (h : sweep slashOnly next text = .matched) :
    ∃ s, s <:+ text ∧ next s = .matched := by
  induction text with
  | nil => exact ⟨[], List.suffix_rfl, h⟩
  | cons c cs ih =>
    have hbelow : sweep slashOnly next cs = .matched →
        ∃ s, s <:+ c :: cs ∧ next s = .matched := by
      intro hsweep
      rcases ih hsweep with ⟨s, hs, hmatch⟩
      exact ⟨s, hs.trans (List.suffix_cons c cs), hmatch⟩
    -- Either the attempt behind `c` matches, or the sweep goes on below.
    rw [sweep] at h
    split at h
    · exact hbelow h
    · split at h
      · exact hbelow h
      · exact ⟨cs, List.suffix_cons c cs, h⟩

/-- A wildcard in front matches only if what comes behind it matches some end of the text. -/
theorem exists_suffix_of_tryRuns (h : tryRuns slashOnly next text = .matched) :
    ∃ s, s <:+ text ∧ next s = .matched := by
  rw [tryRuns] at h
  split at h
  · exact exists_suffix_of_sweep h
  · exact ⟨text, List.suffix_rfl, h⟩

theorem tryRuns_of_matched (h : next text = .matched) :
    tryRuns slashOnly next text = .matched := by
  rw [tryRuns, h]

theorem tryRuns_cons {c : Char} (h : next (c :: text) = .failed) :
    tryRuns false next (c :: text) = tryRuns false next text := by
  rw [tryRuns, h]
  rfl

/-- A wildcard for any run finds an end of the text that matches if the attempts on all longer ends
just fail. -/
theorem tryRuns_append (hback : next back = .matched)
    (hlonger : ∀ t, back <:+ t → back.length < t.length → next t = .failed) (front : List Char) :
    tryRuns false next (front ++ back) = .matched := by
  induction front with
  | nil => exact tryRuns_of_matched hback
  | cons c front ih =>
    have hfailed : next (c :: (front ++ back)) = .failed := by
      apply hlonger
      · exact List.suffix_append (c :: front) back
      · rw [List.length_cons, List.length_append]
        omega
    rw [List.cons_append, tryRuns_cons hfailed]
    exact ih

/-! ## Literal characters -/

theorem matchTokens_nil : matchTokens [] text = .matched ↔ text = [] := by
  cases text <;> simp [matchTokens]

/-- Literal characters in front match themselves. -/
theorem matchTokens_literals_append :
    matchTokens (front.map .literal ++ ts) text = .matched ↔
      ∃ rest, text = front ++ rest ∧ matchTokens ts rest = .matched := by
  induction front generalizing text with
  | nil => simp
  | cons c front ih =>
    cases text with
    | nil => simp [matchTokens]
    | cons d text =>
      by_cases hc : c = d
      · simp [matchTokens, Token.accepts, hc, ih]
      · simp [matchTokens, Token.accepts, hc, Ne.symm hc]

theorem matchTokens_literals : matchTokens (back.map .literal) text = .matched ↔ text = back := by
  have h : matchTokens (back.map .literal ++ []) text = .matched ↔
      ∃ rest, text = back ++ rest ∧ matchTokens [] rest = .matched := matchTokens_literals_append
  simpa [matchTokens_nil] using h

/-- A text that is too long for literal characters fails, but does not end the search. -/
theorem matchTokens_literals_of_length_lt (h : back.length < text.length) :
    matchTokens (back.map .literal) text = .failed := by
  induction back generalizing text with
  | nil =>
    cases text with
    | nil => cases h
    | cons d text => rfl
  | cons c back ih =>
    cases text with
    | nil => cases h
    | cons d text =>
      have hlength : back.length < text.length := Nat.lt_of_succ_lt_succ h
      simp [matchTokens, ih hlength]

/-! ## Ends of texts -/

/-- A star and literal characters behind it match the texts that end with these. -/
theorem matchTokens_sequence_literals :
    matchTokens (.anySequence :: back.map .literal) text = .matched ↔ back <:+ text := by
  rw [matchTokens]
  constructor
  · intro h
    rcases exists_suffix_of_tryRuns h with ⟨s, hs, hmatch⟩
    rwa [matchTokens_literals.mp hmatch] at hs
  · -- The ends that are tried before are too long, and none of them runs out of characters.
    rintro ⟨front, rfl⟩
    refine tryRuns_append (matchTokens_literals.mpr rfl) ?_ front
    intro t _ hlength
    exact matchTokens_literals_of_length_lt hlength

/-- Two stars for components in front of the star make no difference. -/
theorem matchTokens_components_literals :
    matchTokens (.anyComponents :: .anySequence :: back.map .literal) text = .matched ↔
      back <:+ text := by
  rw [matchTokens]
  constructor
  · intro h
    rcases exists_suffix_of_tryRuns h with ⟨s, hs, hmatch⟩
    exact (matchTokens_sequence_literals.mp hmatch).trans hs
  · intro h
    exact tryRuns_of_matched (matchTokens_sequence_literals.mpr h)

/-- Two stars at the end of a pattern match everything, for when the text runs out the tokens behind
them decide, and there are none. -/
theorem matchTokens_components (text : List Char) : matchTokens [.anyComponents] text = .matched := by
  have hsweep : ∀ cs, sweep true (matchTokens []) cs = .matched := by
    intro cs
    induction cs with
    | nil => rfl
    | cons c cs ih =>
      -- What is left behind a slash fails as long as there is any of it, and the sweep goes on.
      rw [sweep]
      split
      · exact ih
      · cases cs with
        | nil => rfl
        | cons d cs => exact ih
  rw [matchTokens, tryRuns]
  cases text with
  | nil => rfl
  | cons c cs => exact hsweep (c :: cs)

/-! ## Reading patterns -/

/-- A text in which no character means anything but itself in a pattern. -/
def IsLiteral (text : String) : Prop :=
  ∀ c ∈ text.toList, c ≠ '?' ∧ c ≠ '*' ∧ c ≠ '['

-- The characters of the text are looked at, not all characters there are.
instance (text : String) : Decidable (IsLiteral text) :=
  List.decidableBAll (fun c => c ≠ '?' ∧ c ≠ '*' ∧ c ≠ '[') text.toList

theorem readPlain_literal {c : Char} (h : c ≠ '?' ∧ c ≠ '*' ∧ c ≠ '[') (tokens : List Token)
    (position : Nat) (free : Bool) :
    readPlain tokens position free c = (.literal c :: tokens, .nothing) := by
  simp [readPlain, h]

/-- Literal characters up to a slash are read one by one, and behind the slash two stars may stand. -/
theorem compileFrom_literals_slash (h : ∀ c ∈ front, c ≠ '?' ∧ c ≠ '*' ∧ c ≠ '[')
    (tokens : List Token) (position : Nat) (free : Bool) (rest : List Char) :
    compileFrom tokens position free .nothing (front ++ '/' :: rest) =
      compileFrom (.literal '/' :: (front.map .literal).reverse ++ tokens)
        (position + front.length + 1) true .nothing rest := by
  induction front generalizing tokens position free with
  | nil => simp [compileFrom, readPlain]
  | cons c front ih =>
    rcases List.forall_mem_cons.mp h with ⟨hc, hfront⟩
    rw [List.cons_append, compileFrom, readPlain_literal hc]
    simp only [ih hfront]
    simp [Nat.add_right_comm, Nat.add_assoc]

theorem compileFrom_literals (h : ∀ c ∈ back, c ≠ '?' ∧ c ≠ '*' ∧ c ≠ '[') (tokens : List Token)
    (position : Nat) (free : Bool) :
    compileFrom tokens position free .nothing back = .ok (tokens.reverse ++ back.map .literal) := by
  induction back generalizing tokens position free with
  | nil => simp [compileFrom]
  | cons c back ih =>
    rcases List.forall_mem_cons.mp h with ⟨hc, hback⟩
    rw [compileFrom, readPlain_literal hc]
    simp [ih hback]

/-- A star and the literal characters behind it. -/
theorem compileFrom_star_literals (h : ∀ c ∈ back, c ≠ '?' ∧ c ≠ '*' ∧ c ≠ '[')
    (tokens : List Token) (position : Nat) (free : Bool) :
    compileFrom tokens position free .nothing ('*' :: back) =
      .ok (tokens.reverse ++ .anySequence :: back.map .literal) := by
  have hstar : readPlain tokens position free '*' = (tokens, .star free) := rfl
  rw [compileFrom, hstar]
  cases back with
  | nil => simp [compileFrom]
  | cons c back =>
    rcases List.forall_mem_cons.mp h with ⟨hc, hback⟩
    simp [compileFrom, hc.2.1, readPlain_literal hc, compileFrom_literals hback]

end Glob

open Glob

/-- A pattern that asks how a path begins and how it ends. -/
inductive PlainPattern where
  /-- All files below a directory whose path ends in a given way. -/
  | between (front back : String)
  /-- All files whose path ends in a given way. -/
  | ending (back : String)
  /-- All files below a directory. -/
  | below (front : String)
  deriving DecidableEq, Repr

namespace PlainPattern

def text : PlainPattern → String
  | between front back => front ++ "/**/*" ++ back
  | ending back => "**/*" ++ back
  | below front => front ++ "/**"

def IsPlain : PlainPattern → Prop
  | between front back => IsLiteral front ∧ IsLiteral back
  | ending back => IsLiteral back
  | below front => IsLiteral front

instance : DecidablePred IsPlain
  | between front back => inferInstanceAs (Decidable (IsLiteral front ∧ IsLiteral back))
  | ending back => inferInstanceAs (Decidable (IsLiteral back))
  | below front => inferInstanceAs (Decidable (IsLiteral front))

/-- What a pattern says of a path. -/
def Fits (path : String) : PlainPattern → Prop
  | between front back => ∃ x, path = front ++ "/" ++ x ++ back
  | ending back => ∃ x, path = x ++ back
  | below front => ∃ x, path = front ++ "/" ++ x

def tokens : PlainPattern → List Token
  | between front back => (front ++ "/").toList.map .literal ++
      .anyComponents :: .anySequence :: back.toList.map .literal
  | ending back => .anyComponents :: .anySequence :: back.toList.map .literal
  | below front => (front ++ "/").toList.map .literal ++ [.anyComponents]

variable {g : PlainPattern} {path front back : String}

/-! ## One pattern -/

/-- A pattern with literal texts around its wildcards is compiled to its tokens. -/
theorem compile_text (h : g.IsPlain) : compile g.text = .ok g.tokens := by
  cases g with
  | between front back =>
    have htext : (between front back).text.toList =
        front.toList ++ '/' :: '*' :: '*' :: '/' :: '*' :: back.toList := by
      simp [text]
    rw [compile, htext, compileFrom_literals_slash h.1]
    -- The three characters behind the slash are one token, and so is the star behind them.
    show compileFrom (Token.anyComponents :: _) _ true .nothing ('*' :: back.toList) = _
    rw [compileFrom_star_literals h.2]
    simp [tokens]
  | ending back =>
    have htext : (ending back).text.toList = '*' :: '*' :: '/' :: '*' :: back.toList := by
      simp [text]
    rw [compile, htext]
    show compileFrom [Token.anyComponents] _ true .nothing ('*' :: back.toList) = _
    rw [compileFrom_star_literals h]
    rfl
  | below front =>
    have htext : (below front).text.toList = front.toList ++ '/' :: ['*', '*'] := by
      simp [text]
    rw [compile, htext, compileFrom_literals_slash h]
    show Except.ok (Token.anyComponents :: _).reverse = _
    simp [tokens]

theorem exists_append_toList_iff {P : List Char → Prop} :
    (∃ cs, path.toList = front.toList ++ cs ∧ P cs) ↔ ∃ x, path = front ++ x ∧ P x.toList := by
  constructor
  · rintro ⟨cs, hcs, hP⟩
    refine ⟨String.ofList cs, ?_, by simpa using hP⟩
    rw [← String.toList_inj, hcs]
    simp
  · rintro ⟨x, rfl, hP⟩
    exact ⟨x.toList, by simp, hP⟩

theorem suffix_toList_iff : back.toList <:+ path.toList ↔ ∃ x, path = x ++ back := by
  constructor
  · rintro ⟨cs, hcs⟩
    refine ⟨String.ofList cs, ?_⟩
    rw [← String.toList_inj, ← hcs]
    simp
  · rintro ⟨x, rfl⟩
    exact ⟨x.toList, by simp⟩

/-- The tokens of a pattern match the paths that begin and end as the pattern says. -/
theorem isMatch_tokens : isMatch g.tokens path = true ↔ g.Fits path := by
  rw [isMatch, decide_eq_true_iff]
  cases g with
  | between front back =>
    rw [tokens, matchTokens_literals_append]
    simp only [matchTokens_components_literals, exists_append_toList_iff, suffix_toList_iff]
    -- What the wildcards stand for in between is the text that is asked for.
    constructor
    · rintro ⟨_, rfl, x, rfl⟩
      exact ⟨x, (String.append_assoc ..).symm⟩
    · rintro ⟨x, rfl⟩
      exact ⟨x ++ back, String.append_assoc .., x, rfl⟩
  | ending back => exact matchTokens_components_literals.trans suffix_toList_iff
  | below front =>
    rw [tokens, matchTokens_literals_append, exists_append_toList_iff]
    simp only [matchTokens_components, and_true]
    rfl

instance (g : PlainPattern) (path : String) : Decidable (g.Fits path) :=
  decidable_of_iff (isMatch g.tokens path = true) isMatch_tokens

/-- A path that begins in one way and ends in another, where the two do not overlap. -/
theorem fits_between_iff (h : '/' ∉ back.toList) :
    (between front back).Fits path ↔ (below front).Fits path ∧ (ending back).Fits path := by
  constructor
  · rintro ⟨x, rfl⟩
    exact ⟨⟨x ++ back, String.append_assoc ..⟩, front ++ "/" ++ x, rfl⟩
  · rintro ⟨⟨x, hx⟩, y, rfl⟩
    have hlists : y.toList ++ back.toList = (front ++ "/").toList ++ x.toList := by
      rw [← String.toList_append, hx, String.toList_append]
    rcases List.append_eq_append_iff.mp hlists with ⟨cs, hfront, hback⟩ | ⟨cs, hy, _⟩
    · rcases List.eq_nil_or_concat cs with rfl | ⟨ds, d, rfl⟩
      · -- The one ends where the other begins.
        refine ⟨"", ?_⟩
        rw [List.append_nil, String.toList_inj] at hfront
        rw [hfront, String.append_empty]
      · -- The slash would be part of the end.
        have hlast : '/' = d := by
          have hfront' : front.toList ++ ['/'] = (y.toList ++ ds) ++ [d] := by
            simpa using hfront
          exact (List.cons.inj (List.append_inj_right' hfront' rfl)).1
        rw [hback, hlast] at h
        simp at h
    · refine ⟨String.ofList cs, ?_⟩
      have hbegin : y = front ++ "/" ++ String.ofList cs := by
        rw [← String.toList_inj, hy]
        simp
      rw [hbegin]

end PlainPattern

/-! ## Lists of patterns -/

namespace Selection

variable {gs : List PlainPattern} {settings : Settings} {s : Selection} {path p : String}
  {tokens : List Token} {before after : List String}

theorem compiles_plainPatterns (h : ∀ g ∈ gs, g.IsPlain) : Compiles (gs.map PlainPattern.text) := by
  intro p hp
  rcases List.mem_map.mp hp with ⟨g, hg, rfl⟩
  exact ⟨_, PlainPattern.compile_text (h g hg)⟩

theorem matchesPatterns_plainPatterns (h : ∀ g ∈ gs, g.IsPlain) :
    MatchesPatterns (gs.map PlainPattern.text) path ↔ ∃ g ∈ gs, g.Fits path := by
  constructor
  · rintro ⟨p, hp, tokens, htokens, hmatch⟩
    rcases List.mem_map.mp hp with ⟨g, hg, rfl⟩
    rw [PlainPattern.compile_text (h g hg), Except.ok.injEq] at htokens
    subst htokens
    exact ⟨g, hg, PlainPattern.isMatch_tokens.mp hmatch⟩
  · rintro ⟨g, hg, hfits⟩
    exact ⟨g.text, List.mem_map_of_mem hg, g.tokens, PlainPattern.compile_text (h g hg),
      PlainPattern.isMatch_tokens.mpr hfits⟩

/-- What compiled settings select, said with the texts of their patterns. -/
theorem selects_of_ofSettings (h : ofSettings settings = .ok s) : s.selects path = true ↔
    MatchesPatterns settings.included path ∧ ¬ MatchesPatterns settings.excluded path := by
  rcases exists_ofSettings_iff.mp ⟨s, h⟩ with ⟨hincluded, hexcluded⟩
  rcases ofSettings_eq_ok_iff.mp h with ⟨included, excluded, hin, hex, rfl⟩
  rw [compilePatterns_of_compiles hincluded, Except.ok.injEq] at hin
  rw [compilePatterns_of_compiles hexcluded, Except.ok.injEq] at hex
  rw [selects_iff, ← hin, ← hex, matchesTokens_compiled, matchesTokens_compiled]

theorem matchesPatterns_insert (h : Glob.compile p = .ok tokens) :
    MatchesPatterns (before ++ p :: after) path ↔
      MatchesPatterns (before ++ after) path ∨ isMatch tokens path = true := by
  simp only [MatchesPatterns, List.mem_append, List.mem_cons, or_and_right, exists_or,
    exists_eq_left, h, Except.ok.injEq, exists_eq_left']
  rw [or_right_comm, or_assoc]

/-- One pattern more among those of the files to leave out removes the paths that match it. -/
theorem ofSettings_excluded_insert (h : ofSettings settings = .ok s)
    (hsplit : settings.excluded = before ++ after) (hp : Glob.compile p = .ok tokens) :
    ∃ s', ofSettings { settings with excluded := before ++ p :: after } = .ok s' ∧
      ∀ path, s'.selects path = true ↔ s.selects path = true ∧ ¬ isMatch tokens path = true := by
  rcases exists_ofSettings_iff.mp ⟨s, h⟩ with ⟨hincluded, hexcluded⟩
  rw [hsplit, compiles_append] at hexcluded
  have hcompiles : Compiles (before ++ p :: after) :=
    compiles_append.mpr ⟨hexcluded.1, List.forall_mem_cons.mpr ⟨⟨tokens, hp⟩, hexcluded.2⟩⟩
  obtain ⟨s', hs'⟩ := (exists_ofSettings_iff
    (s := { settings with excluded := before ++ p :: after })).mpr ⟨hincluded, hcompiles⟩
  refine ⟨s', hs', fun path => ?_⟩
  rw [selects_of_ofSettings h, selects_of_ofSettings hs', matchesPatterns_insert hp, hsplit,
    not_or, and_assoc]

/-- Settings made of plain patterns select what fits one pattern of the files to analyse and none of
those to leave out. -/
theorem selects_of_lists {included excluded : List PlainPattern}
    (hincluded : ∀ g ∈ included, g.IsPlain) (hexcluded : ∀ g ∈ excluded, g.IsPlain)
    (hin : settings.included = included.map PlainPattern.text)
    (hex : settings.excluded = excluded.map PlainPattern.text) :
    ∃ s, ofSettings settings = .ok s ∧ ∀ path, s.selects path = true ↔
      (∃ g ∈ included, g.Fits path) ∧ ¬ ∃ g ∈ excluded, g.Fits path := by
  obtain ⟨s, hs⟩ := (exists_ofSettings_iff (s := settings)).mpr
    ⟨hin ▸ compiles_plainPatterns hincluded, hex ▸ compiles_plainPatterns hexcluded⟩
  refine ⟨s, hs, fun path => ?_⟩
  rw [selects_of_ofSettings hs, hin, hex, matchesPatterns_plainPatterns hincluded,
    matchesPatterns_plainPatterns hexcluded]

/-- The patterns of the default settings. -/
def defaultPatterns : List PlainPattern :=
  [.between "src" ".ts", .between "src" ".tsx"]

theorem isPlain_defaultPatterns : ∀ g ∈ defaultPatterns, g.IsPlain := by decide

theorem included_default : Settings.default.included = defaultPatterns.map PlainPattern.text := rfl

/-- The default settings can be compiled, and they are compiled to the default selection. -/
theorem ofSettings_default : ofSettings Settings.default = .ok default := by
  have hcompiles : Compiles Settings.default.included :=
    compiles_plainPatterns isPlain_defaultPatterns
  rw [ofSettings_eq_ok_iff]
  exact ⟨_, _, compilePatterns_of_compiles hcompiles, rfl, rfl⟩

/-- The default settings select what begins with `src/` and ends in one of two ways, for none of the
ends overlaps with the beginning. -/
theorem selects_default : default.selects path = true ↔
    (∃ x, path = "src/" ++ x) ∧ ((∃ x, path = x ++ ".ts") ∨ ∃ x, path = x ++ ".tsx") := by
  have hexcluded : ¬ MatchesPatterns Settings.default.excluded path := by
    rintro ⟨p, hp, _⟩
    cases hp
  have hts : (PlainPattern.between "src" ".ts").Fits path ↔
      (∃ x, path = "src/" ++ x) ∧ ∃ x, path = x ++ ".ts" :=
    PlainPattern.fits_between_iff (by decide)
  have htsx : (PlainPattern.between "src" ".tsx").Fits path ↔
      (∃ x, path = "src/" ++ x) ∧ ∃ x, path = x ++ ".tsx" :=
    PlainPattern.fits_between_iff (by decide)
  rw [selects_of_ofSettings ofSettings_default, included_default,
    matchesPatterns_plainPatterns isPlain_defaultPatterns, and_iff_left hexcluded, defaultPatterns,
    List.exists_mem_cons_iff, List.exists_mem_cons_iff, hts, htsx]
  simp [and_or_left]

/-- What settings select whose patterns have literal texts around their wildcards. With a single
pattern `front/**/*back` these are the paths that consist of `front/`, any text and `back`. Among the
patterns of the files to leave out, wherever it stands, `**/*back` removes the paths that end with
`back` and no others, and `front/**` those that begin with `front/`. Lists of such patterns can always
be compiled, and they select what fits one pattern of the files to analyse and none of those to leave
out. So the default settings select what begins with `src/` and ends with `.ts` or `.tsx`. -/
theorem selects_of_plainPatterns :
    (∀ front back, IsLiteral front → IsLiteral back → ∀ settings : Settings,
      settings.included = [front ++ "/**/*" ++ back] → settings.excluded = [] →
      ∃ s, ofSettings settings = .ok s ∧
        ∀ path, s.selects path = true ↔ ∃ x, path = front ++ "/" ++ x ++ back) ∧
    (∀ back, IsLiteral back → ∀ settings s before after,
      ofSettings settings = .ok s → settings.excluded = before ++ after →
      ∃ s', ofSettings { settings with excluded := before ++ ("**/*" ++ back) :: after } = .ok s' ∧
        ∀ path, s'.selects path = true ↔ s.selects path = true ∧ ¬ ∃ x, path = x ++ back) ∧
    (∀ front, IsLiteral front → ∀ settings s before after,
      ofSettings settings = .ok s → settings.excluded = before ++ after →
      ∃ s', ofSettings { settings with excluded := before ++ (front ++ "/**") :: after } = .ok s' ∧
        ∀ path, s'.selects path = true ↔
          s.selects path = true ∧ ¬ ∃ x, path = front ++ "/" ++ x) ∧
    (∀ included excluded : List PlainPattern,
      (∀ g ∈ included, g.IsPlain) → (∀ g ∈ excluded, g.IsPlain) → ∀ settings : Settings,
      settings.included = included.map PlainPattern.text →
      settings.excluded = excluded.map PlainPattern.text →
      ∃ s, ofSettings settings = .ok s ∧ ∀ path, s.selects path = true ↔
        (∃ g ∈ included, g.Fits path) ∧ ¬ ∃ g ∈ excluded, g.Fits path) ∧
    ofSettings Settings.default = .ok default ∧
    ∀ path, default.selects path = true ↔
      (∃ x, path = "src/" ++ x) ∧ ((∃ x, path = x ++ ".ts") ∨ ∃ x, path = x ++ ".tsx") := by
  refine ⟨?_, ?_, ?_, ?_, ofSettings_default, fun path => selects_default⟩
  · -- One pattern that includes and none that excludes is a case of two lists.
    intro front back hfront hback settings hin hex
    have hplain : ∀ g ∈ [PlainPattern.between front back], g.IsPlain := by
      intro g hg
      rw [List.mem_singleton.mp hg]
      exact ⟨hfront, hback⟩
    rcases selects_of_lists hplain (List.forall_mem_nil _) hin hex with ⟨s, hs, hselects⟩
    refine ⟨s, hs, fun path => ?_⟩
    rw [hselects]
    simp [PlainPattern.Fits]
  · -- A pattern more among those that exclude takes away what it matches, whatever the others are.
    intro back hback settings s before after hs hsplit
    have hplain : (PlainPattern.ending back).IsPlain := hback
    obtain ⟨s', hs', hselects⟩ :=
      ofSettings_excluded_insert hs hsplit (PlainPattern.compile_text hplain)
    refine ⟨s', hs', fun path => ?_⟩
    rw [hselects, PlainPattern.isMatch_tokens]
    rfl
  · intro front hfront settings s before after hs hsplit
    have hplain : (PlainPattern.below front).IsPlain := hfront
    obtain ⟨s', hs', hselects⟩ :=
      ofSettings_excluded_insert hs hsplit (PlainPattern.compile_text hplain)
    refine ⟨s', hs', fun path => ?_⟩
    rw [hselects, PlainPattern.isMatch_tokens]
    rfl
  · intro included excluded hincluded hexcluded settings hin hex
    exact selects_of_lists hincluded hexcluded hin hex

/-- Settings that leave out declarations and generated files. -/
def handwritten : Settings :=
  { Settings.default with excluded := ["**/*.d.ts", "src/generated/**"] }

/-- A path may fit a pattern with nothing for the wildcards, with several components for them, and with
the dots of an end inside a longer name. -/
theorem selects_of_plainPatterns_handwritten :
    ∃ s, ofSettings handwritten = .ok s ∧ s.selects "src/.ts" = true ∧
      s.selects "src/ui/d.ts/a.ts" = true ∧ s.selects "src/ui/a.d.ts" = false ∧
      s.selects "src/generated/ui/a.ts" = false := by
  rcases selects_of_plainPatterns with ⟨_, _, _, hlists, _⟩
  obtain ⟨s, hs, hselects⟩ := hlists defaultPatterns [.ending ".d.ts", .below "src/generated"]
    isPlain_defaultPatterns (by decide) handwritten rfl rfl
  have hout : ∀ path, ¬ ((∃ g ∈ defaultPatterns, g.Fits path) ∧
      ¬ ∃ g ∈ [PlainPattern.ending ".d.ts", .below "src/generated"], g.Fits path) →
      s.selects path = false := by
    intro path hpath
    exact Bool.eq_false_iff.mpr (mt (hselects path).mp hpath)
  exact ⟨s, hs, (hselects _).mpr (by decide), (hselects _).mpr (by decide), hout _ (by decide),
    hout _ (by decide)⟩

end Selection

end ClassGauge
