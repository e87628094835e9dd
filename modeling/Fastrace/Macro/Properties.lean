import Fastrace.Runs

/-!
# The properties of `#[trace]`

`fastrace-macro/src/lib.rs`: the value of a property is a format string.  `unescape_format_string` decides whether it
has to be formatted at run time, and where it does not, it unescapes the braces itself.

`unescapeFormatString_eq_iff`: it agrees with the grammar of format strings on every string but those with
`JoinedBraces`, in which braces that cannot be paired where they stand are brought together by a deletion.
-/

namespace Fastrace.Macro

/-! ### The grammar of format strings -/

/-- A format string without arguments, read from left to right: what it produces, or `none` if a brace is not part of
an escape, so that it opens an argument or is an error. -/
def formatPlain : List Char → Option (List Char)
  | [] => some []
  | [c] => if c = '{' ∨ c = '}' then none else some [c]
  | c :: d :: s =>
    if c = '{' ∨ c = '}' then
      if d = c then (formatPlain s).map (c :: ·) else none
    else
      (formatPlain (d :: s)).map (c :: ·)

/-- What the grammar asks of `unescape_format_string`. -/
def unescapeSpec (s : String) : String × Bool :=
  match formatPlain s.toList with
  | some t => (String.ofList t, false)
  | none => (s, true)

/-! ### The macro -/

/-- `str::replace` of a doubled character. -/
def strReplacePair (s : List Char) (c : Char) (r : List Char) : List Char := replacePair c r s

def unescapeFormatString (s : String) : String × Bool :=
  let unescapedDelete := strReplacePair (strReplacePair s.toList '{' []) '}' []
  let containsValidFormatString := unescapedDelete.contains '{' || unescapedDelete.contains '}'
  if containsValidFormatString then
    (s, true)
  else
    let unescapedReplace := strReplacePair (strReplacePair s.toList '{' ['{']) '}' ['}']
    (String.ofList unescapedReplace, false)

/-- The expression for the value of a property: a literal, or a call of `format!`. -/
inductive PropertyValue where
  | literal (v : String)
  | format (v : String)
deriving DecidableEq, Repr

structure Args where
  enterOnPoll : Bool
  properties : List (String × String)
deriving DecidableEq, Repr

/-- The keys and values of the call of `with_properties`; no call where the list is empty. -/
def genProperties (args : Args) : Except String (List (String × PropertyValue)) :=
  if args.properties.isEmpty then
    .ok []
  else if args.enterOnPoll then
    .error "`enter_on_poll` can not be used with `properties`"
  else
    .ok (args.properties.map fun (k, v) =>
      let (v, needFormat) := unescapeFormatString v
      if needFormat then (k, .format v) else (k, .literal v))

/-! ### Runs of braces -/

variable {s t : List Char}

/-- The runs of `{`, and the blocks of braces with the `{` left out, are even, but a run of `}` is odd: taking out the
`{` joins it to another one. -/
def JoinedBraces (s : List Char) : Prop :=
  evenRuns '{' s = true ∧ evenRuns '}' (s.filter (· ≠ '{')) = true ∧ evenRuns '}' s = false

instance : Decidable (JoinedBraces s) := inferInstanceAs (Decidable (_ ∧ _ ∧ _))

private theorem formatPlain_isSome_iff :
    (formatPlain s).isSome = true ↔ evenRuns '{' s = true ∧ evenRuns '}' s = true := by
  fun_induction formatPlain s with
  | case1 => simp
  | case2 c hc => rcases hc with rfl | rfl <;> simp
  | case3 c hc =>
    rw [not_or] at hc
    simp [evenRuns_cons_of_ne hc.1, evenRuns_cons_of_ne hc.2]
  | case4 c s hc ih =>
    rw [Option.isSome_map, ih]
    rcases hc with rfl | rfl
    · rw [evenRuns_pair, evenRuns_cons_of_ne (by decide), evenRuns_cons_of_ne (by decide)]
    · rw [evenRuns_pair, evenRuns_cons_of_ne (by decide), evenRuns_cons_of_ne (by decide)]
  | case5 c d s hc hd =>
    rcases hc with rfl | rfl
    · simp [evenRuns_lone hd]
    · simp [evenRuns_lone hd]
  | case6 c d s hc ih =>
    rw [not_or] at hc
    rw [Option.isSome_map, ih, evenRuns_cons_of_ne hc.1, evenRuns_cons_of_ne hc.2]

/-- Where all runs are even, so are the blocks with the `{` left out. -/
private theorem evenRuns_filter (h : (formatPlain s).isSome = true) : evenRuns '}' (s.filter (· ≠ '{')) = true := by
  fun_induction formatPlain s with
  | case1 => simp
  | case2 c hc => simp at h
  | case3 c hc =>
    rw [not_or] at hc
    simp [hc.1, evenRuns_cons_of_ne hc.2]
  | case4 c s hc ih =>
    rw [Option.isSome_map] at h
    rcases hc with rfl | rfl
    · simpa using ih h
    · simpa using ih h
  | case5 c d s hc hd => simp at h
  | case6 c d s hc ih =>
    rw [Option.isSome_map] at h
    rw [not_or] at hc
    rw [List.filter_cons_of_pos (by simpa using hc.1), evenRuns_cons_of_ne hc.2]
    exact ih h

/-- On a well-formed string without arguments the two replacements produce what the grammar does. -/
private theorem replace_eq_of_formatPlain (h : formatPlain s = some t) :
    strReplacePair (strReplacePair s '{' ['{']) '}' ['}'] = t := by
  unfold strReplacePair
  fun_induction formatPlain s generalizing t with
  | case1 =>
    rw [← Option.some.inj h]
    rfl
  | case2 c hc => simp at h
  | case3 c hc => simpa [replacePair] using h
  | case4 c s hc ih =>
    obtain ⟨u, hu, rfl⟩ := Option.map_eq_some_iff.mp h
    rcases hc with rfl | rfl
    · rw [replacePair_pair, List.singleton_append, replacePair_cons_of_ne (by decide), ih hu]
    · have hright : '}' ≠ '{' := by decide
      rw [replacePair_cons_of_ne hright, replacePair_cons_of_ne hright, replacePair_pair, List.singleton_append,
        ih hu]
  | case5 c d s hc hd => simp at h
  | case6 c d s hc ih =>
    obtain ⟨u, hu, rfl⟩ := Option.map_eq_some_iff.mp h
    rw [not_or] at hc
    rw [replacePair_cons_of_ne hc.1, replacePair_cons_of_ne hc.2, ih hu]

/-- The strings that `unescape_format_string` takes for strings without arguments: no brace is left when the pairs
of `{` and then those of `}` are taken out. -/
def TakenAsPlain (s : List Char) : Prop :=
  evenRuns '{' s = true ∧ evenRuns '}' (s.filter (· ≠ '{')) = true

private theorem braces_left_iff (s : List Char) :
    ((strReplacePair (strReplacePair s '{' []) '}' []).contains '{' ||
      (strReplacePair (strReplacePair s '{' []) '}' []).contains '}') = true ↔ ¬ TakenAsPlain s := by
  have hmem : ((strReplacePair (strReplacePair s '{' []) '}' []).contains '{' ||
      (strReplacePair (strReplacePair s '{' []) '}' []).contains '}') = true ↔
      ¬ ('{' ∉ replacePair '}' [] (replacePair '{' [] s) ∧ '}' ∉ replacePair '}' [] (replacePair '{' [] s)) := by
    simp only [strReplacePair, Bool.or_eq_true, List.contains_iff_mem, not_and_or, not_not]
  rw [hmem, not_iff_not, mem_replacePair_of_ne (by decide), not_mem_replacePair_iff, not_mem_replacePair_iff]
  unfold TakenAsPlain
  constructor
  · intro h
    rw [← replacePair_eq_filter h.1]
    exact h
  · intro h
    rw [replacePair_eq_filter h.1]
    exact h

private theorem unescapeFormatString_of_taken {s : String} (h : TakenAsPlain s.toList) :
    unescapeFormatString s =
      (String.ofList (strReplacePair (strReplacePair s.toList '{' ['{']) '}' ['}']), false) := by
  have hbraces := (not_congr (braces_left_iff s.toList)).mpr (not_not.mpr h)
  simp only [unescapeFormatString, if_neg hbraces]

private theorem unescapeFormatString_of_not_taken {s : String} (h : ¬ TakenAsPlain s.toList) :
    unescapeFormatString s = (s, true) := by
  have hbraces := (braces_left_iff s.toList).mpr h
  simp only [unescapeFormatString, if_pos hbraces]

/-! ### Agreement with the grammar -/

/-- `unescape_format_string` follows the grammar of format strings on a string if and only if the string has no
joined braces. -/
theorem unescapeFormatString_eq_iff (s : String) :
    unescapeFormatString s = unescapeSpec s ↔ ¬ JoinedBraces s.toList := by
  unfold unescapeSpec
  cases hplain : formatPlain s.toList with
  | some t =>
    have hsome : (formatPlain s.toList).isSome = true := by rw [hplain]; rfl
    obtain ⟨hleft, hright⟩ := formatPlain_isSome_iff.mp hsome
    have hjoined : ¬ JoinedBraces s.toList := by
      intro h
      rw [h.2.2] at hright
      exact Bool.false_ne_true hright
    rw [unescapeFormatString_of_taken ⟨hleft, evenRuns_filter hsome⟩, replace_eq_of_formatPlain hplain]
    exact iff_of_true rfl hjoined
  | none =>
    have hnone : ¬ (evenRuns '{' s.toList = true ∧ evenRuns '}' s.toList = true) := by
      rw [← formatPlain_isSome_iff, hplain]
      simp
    by_cases htaken : TakenAsPlain s.toList
    · have hjoined : JoinedBraces s.toList := by
        refine ⟨htaken.1, htaken.2, ?_⟩
        rw [← Bool.not_eq_true]
        intro hright
        exact hnone ⟨htaken.1, hright⟩
      rw [unescapeFormatString_of_taken htaken]
      simp [hjoined]
    · have hjoined : ¬ JoinedBraces s.toList := fun h => htaken ⟨h.1, h.2.1⟩
      rw [unescapeFormatString_of_not_taken htaken]
      exact iff_of_true rfl hjoined

/-- Neither `}` of this string has a partner beside it, but with the pair of `{` taken out they have each other. -/
theorem unescapeFormatString_joined :
    unescapeFormatString "\x7d\x7b\x7b\x7d" = ("\x7d\x7b\x7d", false) ∧
      unescapeSpec "\x7d\x7b\x7b\x7d" = ("\x7d\x7b\x7b\x7d", true) := by
  decide

/-- The value of a property as the grammar has it: a literal, or left to `format!`, which reports the errors. -/
def valueOf (v : String) : PropertyValue :=
  match formatPlain v.toList with
  | some t => .literal (String.ofList t)
  | none => .format v

theorem genProperties_eq {args : Args} (hpoll : args.enterOnPoll = false)
    (hjoined : ∀ p ∈ args.properties, ¬ JoinedBraces p.2.toList) :
    genProperties args = .ok (args.properties.map fun p => (p.1, valueOf p.2)) := by
  unfold genProperties
  split
  · next hempty => simp [List.isEmpty_iff.mp hempty]
  · rw [if_neg (by simp [hpoll])]
    congr 1
    apply List.map_congr_left
    intro p hp
    have hspec := (unescapeFormatString_eq_iff p.2).mpr (hjoined p hp)
    unfold unescapeSpec at hspec
    unfold valueOf
    cases hplain : formatPlain p.2.toList with
    | some t => simp [hspec, hplain]
    | none => simp [hspec, hplain]

end Fastrace.Macro
