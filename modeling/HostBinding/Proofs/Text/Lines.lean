import HostBinding.Proofs.Text.Trimming
import HostBinding.Proofs.Text.Words
import HostBinding.Text.Line

/-!
# The lines of a text

A text without a line feed is one line, or none at all when it is empty. Any other text is a line, its line feed and a
shorter text, whose lines follow. So the lines can be counted by the line feeds, and none of them holds one; neither
does a line of documentation, which is a line of a comment behind three slashes.
-/

namespace HostBinding.Text

variable {text line : List Char}

theorem fields_newline_of_notMem (h : '\n' ∉ line) : fields (· == '\n') line = [line] :=
  fields_of_forall fun c hc => by simpa using ne_of_mem_of_not_mem hc h

theorem lines_of_notMem (h : '\n' ∉ line) : lines line = if line.isEmpty then [] else [line] := by
  rw [lines, fields_newline_of_notMem h, ended]

theorem lines_append_newline (h : '\n' ∉ line) (rest : List Char) :
    lines (line ++ '\n' :: rest) = withoutReturn line :: lines rest := by
  obtain ⟨piece, pieces, hpieces⟩ := List.exists_cons_of_ne_nil (fields_ne_nil (· == '\n') rest)
  rw [lines, lines, fields_append_separator (by decide), fields_newline_of_notMem h, hpieces]
  rfl

/-- A text is its last line, or a line with its line feed before a text. -/
@[elab_as_elim]
theorem line_induction {motive : List Char → Prop} (last : ∀ line, '\n' ∉ line → motive line)
    (more : ∀ line rest, '\n' ∉ line → motive rest → motive (line ++ '\n' :: rest)) (text : List Char) :
    motive text := by
  induction hlength : text.length using Nat.strong_induction_on generalizing text with
  | _ length ih =>
    by_cases hmem : '\n' ∈ text
    · obtain ⟨line, rest, rfl, hline⟩ := List.eq_append_cons_of_mem hmem
      apply more line rest hline
      apply ih rest.length _ rest rfl
      rw [← hlength, List.length_append, List.length_cons]
      omega
    · exact last text hmem

/-- How many lines a text has: one for each line feed, and one for what stands behind the last of them. -/
def lineCount (text : List Char) : Nat :=
  text.count '\n' + if text.getLast?.all (· == '\n') then 0 else 1

theorem length_lines (text : List Char) : (lines text).length = lineCount text := by
  induction text using line_induction with
  | last line hline =>
    rw [lines_of_notMem hline, lineCount, List.count_eq_zero.mpr hline]
    cases hlast : line.getLast? with
    | none =>
      rw [List.getLast?_eq_none_iff.mp hlast]
      rfl
    | some c =>
      have hmem := List.mem_of_getLast? hlast
      have hne : c ≠ '\n' := ne_of_mem_of_not_mem hmem hline
      simp [hne, List.ne_nil_of_mem hmem]
  | more line rest hline ih =>
    have hlast : (line ++ '\n' :: rest).getLast?.all (· == '\n') = rest.getLast?.all (· == '\n') := by
      cases rest <;> simp [List.getLast?_append, List.getLast?_cons]
    rw [lines_append_newline hline, List.length_cons, ih, lineCount, lineCount, hlast, List.count_append,
      List.count_eq_zero.mpr hline, List.count_cons_self]
    omega

theorem withoutReturn_prefix_self (line : List Char) : withoutReturn line <+: line := by
  rw [withoutReturn]
  split
  · exact List.dropLast_prefix line
  · exact List.prefix_refl line

theorem newline_notMem_of_mem_lines (h : line ∈ lines text) : '\n' ∉ line := by
  induction text using line_induction with
  | last whole hwhole =>
    rw [lines_of_notMem hwhole] at h
    split at h
    · cases h
    · rwa [List.mem_singleton.mp h]
  | more first rest hfirst ih =>
    rw [lines_append_newline hfirst, List.mem_cons] at h
    rcases h with rfl | hrest
    · exact fun hmem => hfirst ((withoutReturn_prefix_self first).subset hmem)
    · exact ih hrest

/-! ### Lines of documentation -/

/-- A line of documentation starts with three slashes, and it ends where the next line feed is. -/
structure IsDocLine (line : String) : Prop where
  slashes : "///".toList <+: line.toList
  ends : '\n' ∉ line.toList

instance (line : String) : Decidable (IsDocLine line) :=
  decidable_of_iff ("///".toList <+: line.toList ∧ '\n' ∉ line.toList)
    ⟨fun ⟨slashes, ends⟩ => ⟨slashes, ends⟩, fun h => ⟨h.slashes, h.ends⟩⟩

theorem length_docLines (comment : String) : (docLines comment).length = lineCount comment.toList := by
  rw [docLines, List.length_map, length_lines]

theorem isDocLine_of_mem_docLines {comment line : String} (h : line ∈ docLines comment) : IsDocLine line := by
  obtain ⟨content, hcontent, rfl⟩ := List.mem_map.mp h
  have hends : '\n' ∉ trimEnd content :=
    fun hmem => newline_notMem_of_mem_lines hcontent ((trimEnd_prefix_self content).subset hmem)
  dsimp only
  split
  · exact ⟨by decide, by decide⟩
  · rw [show "/// " = "///" ++ " " by decide, String.append_assoc]
    constructor
    case slashes => exact String.toList_append ▸ List.prefix_append _ _
    case ends => simpa using hends

end HostBinding.Text
