import HostBinding.Text.RawString

/-!
# Raw string literals are read back

Who reads a raw string literal counts the hashes in front of the opening quote and then takes everything up to the
first quote that as many hashes follow. So a literal is read back when its last quote ends it and no quote of the text
does. Behind a quote of the text there are fewer hashes, also where the text ends in a run of them: what comes next is
the closing quote, which ends the run.
-/

namespace HostBinding.Text

/-- What stands before the first quote that so many hashes follow, and what stands behind these hashes. -/
def untilClosing? (hashes : Nat) : List Char → Option (List Char × List Char)
  | [] => none
  | c :: rest =>
    if c = '"' ∧ List.replicate hashes '#' <+: rest then some ([], rest.drop hashes)
    else (untilClosing? hashes rest).map fun found => (c :: found.1, found.2)

/-- Reads the raw string literal at the beginning of a source: the text that it holds, and the source behind it. -/
def readRawString? : List Char → Option (List Char × List Char)
  | 'r' :: source =>
    match source.dropWhile (· = '#') with
    | '"' :: body => untilClosing? (source.takeWhile (· = '#')).length body
    | _ => none
  | _ => none

variable {hashes count : Nat} {source body after text rest : List Char}

/-! ### The first closing quote -/

/-- A source is cut at a quote that so many hashes follow. -/
def Closes (hashes : Nat) (source body after : List Char) : Prop :=
  source = body ++ '"' :: (List.replicate hashes '#' ++ after)

/-- Reading stops at the closing quote that has the fewest characters before it. -/
theorem untilClosing?_eq_some (h : Closes hashes source body after)
    (hfirst : ∀ earlier later, Closes hashes source earlier later → body.length ≤ earlier.length) :
    untilClosing? hashes source = some (body, after) := by
  subst h
  induction body with
  | nil => simp [untilClosing?]
  | cons c body ih =>
    have hopen : ¬ (c = '"' ∧
        List.replicate hashes '#' <+: body ++ '"' :: (List.replicate hashes '#' ++ after)) := by
      rintro ⟨rfl, later, hlater⟩
      have hlength := hfirst [] later (congrArg ('"' :: ·) hlater.symm)
      exact absurd hlength (by simp)
    have hrest : untilClosing? hashes (body ++ '"' :: (List.replicate hashes '#' ++ after)) = some (body, after) := by
      refine ih fun earlier later hcloses => ?_
      have hlength := hfirst (c :: earlier) later (congrArg (c :: ·) hcloses)
      simpa using hlength
    rw [List.cons_append, untilClosing?, if_neg hopen, hrest]
    rfl

theorem takeWhile_hashes (count : Nat) (rest : List Char) :
    (List.replicate count '#' ++ '"' :: rest).takeWhile (· = '#') = List.replicate count '#' := by
  rw [List.takeWhile_append_of_pos (by simp), List.takeWhile_cons_of_neg (by decide), List.append_nil]

theorem dropWhile_hashes (count : Nat) (rest : List Char) :
    (List.replicate count '#' ++ '"' :: rest).dropWhile (· = '#') = '"' :: rest := by
  rw [List.dropWhile_append_of_pos (by simp), List.dropWhile_cons_of_neg (by decide)]

/-! ### Runs of hashes -/

theorem exists_longestRun_le_cons (state : Option Nat) (c : Char) (text : List Char) :
    ∃ next, longestRun next text ≤ longestRun state (c :: text) := by
  generalize hsource : c :: text = source
  fun_cases longestRun state source with
  | case1 => cases hsource
  | case2 =>
    cases hsource
    exact ⟨some 0, Nat.le_refl _⟩
  | case3 run =>
    cases hsource
    exact ⟨some (run + 1), Nat.le_max_right _ _⟩
  | case4 =>
    cases hsource
    exact ⟨none, Nat.le_refl _⟩

theorem add_le_longestRun (run count : Nat) (after : List Char) :
    run + (count + 1) ≤ longestRun (some run) (List.replicate (count + 1) '#' ++ after) := by
  induction count generalizing run with
  | zero => exact Nat.le_max_left _ _
  | succ count ih =>
    have hrest := ih (run + 1)
    rw [List.replicate_succ, List.cons_append, longestRun]
    omega

theorem le_longestRun (state : Option Nat) (before : List Char) (count : Nat) (after : List Char) :
    count ≤ longestRun state (before ++ '"' :: (List.replicate count '#' ++ after)) := by
  induction before generalizing state with
  | nil =>
    cases count with
    | zero => exact Nat.zero_le _
    | succ count =>
      have hrun := add_le_longestRun 0 count after
      rw [List.nil_append, longestRun]
      omega
  | cons c before ih =>
    obtain ⟨next, hnext⟩ := exists_longestRun_le_cons state c (before ++ '"' :: (List.replicate count '#' ++ after))
    exact Nat.le_trans (ih next) hnext

theorem hashes_prefix_of_append (h : List.replicate count '#' <+: text ++ '"' :: rest) :
    List.replicate count '#' <+: text := by
  induction count generalizing text with
  | zero => exact List.nil_prefix
  | succ count ih =>
    rw [List.replicate_succ] at h ⊢
    cases text with
    | nil => exact absurd (List.cons_prefix_cons.mp h).1 (by decide)
    | cons c text =>
      rw [List.cons_append, List.cons_prefix_cons] at h
      exact List.cons_prefix_cons.mpr ⟨h.1, ih h.2⟩

/-- No quote of a text closes a literal that has more hashes than any quote of the text is followed by. -/
theorem length_le_of_closes (hmore : longestRun none text < hashes) {earlier later : List Char}
    (h : Closes hashes (text ++ '"' :: rest) earlier later) : text.length ≤ earlier.length := by
  rw [Closes, List.append_eq_append_iff] at h
  rcases h with ⟨more, rfl, -⟩ | ⟨more, rfl, hquote⟩
  · simp
  cases more with
  | nil => simp
  | cons c more =>
    -- The quote stands inside the text, and so do the hashes behind it.
    rw [List.cons_append, List.cons.injEq] at hquote
    obtain ⟨rfl, hbehind⟩ := hquote
    obtain ⟨further, rfl⟩ := hashes_prefix_of_append ⟨later, hbehind⟩
    exact absurd (le_longestRun none earlier hashes further) (Nat.not_le_of_lt hmore)

/-! ### Literals -/

/-- **A raw string literal is read back**: whatever source follows it, a reader gets the text and stops where the
literal ends. -/
theorem readRawString?_rawString (text continuation : String) :
    readRawString? (rawString text ++ continuation).toList = some (text.toList, continuation.toList) := by
  have hhashes : longestRun none text.toList < hashCount text.toList := Nat.lt_succ_self _
  have hsource : (rawString text ++ continuation).toList =
      'r' :: (List.replicate (hashCount text.toList) '#' ++ '"' ::
        (text.toList ++ '"' :: (List.replicate (hashCount text.toList) '#' ++ continuation.toList))) := by
    simp [rawString]
  rw [hsource, readRawString?, dropWhile_hashes, takeWhile_hashes, List.length_replicate]
  exact untilClosing?_eq_some rfl fun _ _ => length_le_of_closes hhashes

example : rawString "a \"# b" = "r##\"a \"# b\"##" := by decide +kernel

end HostBinding.Text
