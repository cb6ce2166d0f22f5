import HostBinding.Proofs.Session.Collecting

/-!
# The sections of a module

A module lists its fragments as they came. What it writes is sorted by kind, and two ways of filling it that differ
in how the kinds interleave cannot be told apart. Sorting is stated without the module: a list is the stable partition
of another one when it is sorted by kind and has the same fragments of each kind in the same order, and there is only
one such list. A module that keeps a section for every kind, made when the first fragment of the kind comes, has the
same sections as the list.
-/

namespace HostBinding

/-- The place of a kind in what a module writes. -/
def FragmentKind.rank : FragmentKind → Nat
  | opening => 0
  | importLine => 1
  | structBinding => 2
  | functionBinding => 3
  | shim => 4

theorem FragmentKind.mem_all (kind : FragmentKind) : kind ∈ all := by
  cases kind <;> decide

theorem FragmentKind.rank_injective : Function.Injective rank := by
  intro kind kind' h
  cases kind <;> cases kind' <;> first | rfl | cases h

theorem FragmentKind.pairwise_rank : all.Pairwise (·.rank < ·.rank) := by
  decide

/-! ### Stable partitions -/

def SortedByKind (fragments : List Fragment) : Prop :=
  fragments.Pairwise (·.kind.rank ≤ ·.kind.rank)

/-- The fragments of a sequence, sorted by kind. Those of one kind keep their order. -/
structure Partitions (sequence parts : List Fragment) : Prop where
  sorted : SortedByKind parts
  ofKind : ∀ kind, parts.filter (·.kind = kind) = sequence.filter (·.kind = kind)

variable {parts others sequence : List Fragment} {fragment : Fragment} {kind : FragmentKind}

theorem mem_of_filter_eq (h : ∀ kind, parts.filter (·.kind = kind) = others.filter (·.kind = kind))
    (hmem : fragment ∈ parts) : fragment ∈ others := by
  have hown : fragment ∈ parts.filter (·.kind = fragment.kind) := List.mem_filter.mpr ⟨hmem, by simp⟩
  rw [h] at hown
  exact List.mem_of_mem_filter hown

theorem SortedByKind.rank_le {part : Fragment} (h : SortedByKind (part :: parts)) (hmem : fragment ∈ part :: parts) :
    part.kind.rank ≤ fragment.kind.rank := by
  rcases List.mem_cons.mp hmem with rfl | hrest
  · exact Nat.le_refl _
  · exact List.rel_of_pairwise_cons h hrest

/-- Two lists that are sorted and agree on every kind are equal. -/
theorem SortedByKind.eq_of_filter_eq (hparts : SortedByKind parts) (hothers : SortedByKind others)
    (h : ∀ kind, parts.filter (·.kind = kind) = others.filter (·.kind = kind)) : parts = others := by
  induction parts generalizing others with
  | nil =>
    refine (List.eq_nil_iff_forall_not_mem.mpr fun fragment hmem => ?_).symm
    cases mem_of_filter_eq (fun kind => (h kind).symm) hmem
  | cons part parts ih =>
    have hpart := mem_of_filter_eq h List.mem_cons_self
    cases others with
    | nil => cases hpart
    | cons other others =>
      have hother := mem_of_filter_eq (fun kind => (h kind).symm) List.mem_cons_self
      have hkind : part.kind = other.kind :=
        FragmentKind.rank_injective (Nat.le_antisymm (hparts.rank_le hother) (hothers.rank_le hpart))
      have hfirst := h part.kind
      rw [List.filter_cons_of_pos (by simp), List.filter_cons_of_pos (by simp [hkind]), List.cons.injEq] at hfirst
      obtain ⟨rfl, hrest⟩ := hfirst
      refine congrArg _ (ih hparts.of_cons hothers.of_cons fun kind => ?_)
      by_cases hown : part.kind = kind
      · exact hown ▸ hrest
      · simpa [hown] using h kind

theorem Partitions.unique (h : Partitions sequence parts) (h' : Partitions sequence others) : parts = others :=
  h.sorted.eq_of_filter_eq h'.sorted fun kind => (h.ofKind kind).trans (h'.ofKind kind).symm

/-- A sequence without the import lines that stand in it before. -/
def withoutRepeatedImports : List Fragment → List Fragment
  | [] => []
  | fragment :: rest => fragment :: (withoutRepeatedImports rest).filter fun later =>
      ¬ (fragment.kind = .importLine ∧ later.toFragmentId = fragment.toFragmentId)

theorem filter_withoutRepeatedImports (hkind : kind ≠ .importLine) (sequence : List Fragment) :
    (withoutRepeatedImports sequence).filter (·.kind = kind) = sequence.filter (·.kind = kind) := by
  induction sequence with
  | nil => rfl
  | cons fragment rest ih =>
    rw [withoutRepeatedImports, List.filter_cons, List.filter_cons, List.filter_comm, List.filter_eq_self.mpr, ih]
    intro later hlater
    have hlaterKind : later.kind = kind := by simpa using (List.mem_filter.mp hlater).2
    rw [decide_eq_true_eq]
    rintro ⟨himport, hid⟩
    exact hkind (hlaterKind.symm.trans ((congrArg FragmentId.kind hid).trans himport))

theorem imports_withoutRepeatedImports (sequence : List Fragment) :
    (withoutRepeatedImports sequence).filter (·.kind = .importLine) =
      firstBy (·.toFragmentId) (sequence.filter (·.kind = .importLine)) := by
  induction sequence with
  | nil => rfl
  | cons fragment rest ih =>
    rw [withoutRepeatedImports, List.filter_cons, List.filter_cons, List.filter_comm, ih]
    by_cases hkind : fragment.kind = .importLine
    · simp [hkind, firstBy]
    · simp [hkind]

/-! ### Sections that are made on demand -/

/-- A list for every kind of which there are fragments, in the order of the kinds. -/
abbrev Sections := List (FragmentKind × List Fragment)

/-- Adds a fragment to the others of its kind, unless it is an import line that is there. -/
def pushAmong (held : List Fragment) (fragment : Fragment) : List Fragment :=
  if fragment.kind = .importLine ∧ held.any (·.name = fragment.name) then held else held ++ [fragment]

/-- Adds a fragment to the section of its kind, which is made when there is none. -/
def Sections.push : Sections → Fragment → Sections
  | [], fragment => [(fragment.kind, pushAmong [] fragment)]
  | (kind, held) :: rest, fragment =>
    if kind = fragment.kind then (kind, pushAmong held fragment) :: rest
    else if fragment.kind.rank < kind.rank then (fragment.kind, pushAmong [] fragment) :: (kind, held) :: rest
    else (kind, held) :: push rest fragment

theorem pushAmong_ne_nil (held : List Fragment) (fragment : Fragment) : pushAmong held fragment ≠ [] := by
  rw [pushAmong]
  split
  · rename_i hdropped
    rintro rfl
    cases hdropped.2
  · simp

namespace OutputModule

variable {m m' : OutputModule} {kinds : List FragmentKind}

theorem any_id_eq (m : OutputModule) (fragment : Fragment) :
    m.added.any (·.toFragmentId = fragment.toFragmentId) = (m.ofKind fragment.kind).any (·.name = fragment.name) := by
  rw [ofKind, List.any_filter]
  refine congrArg _ (funext fun held => ?_)
  rw [← Bool.decide_and]
  exact decide_eq_decide.mpr (FragmentId.mk.injEq held.kind held.name fragment.kind fragment.name).to_iff

theorem ofKind_push (m : OutputModule) (fragment : Fragment) (kind : FragmentKind) :
    (m.push fragment).ofKind kind =
      if kind = fragment.kind then pushAmong (m.ofKind kind) fragment else m.ofKind kind := by
  by_cases hkind : kind = fragment.kind
  · subst hkind
    rw [if_pos rfl, push, any_id_eq, pushAmong]
    split
    · rfl
    · simp [ofKind]
  · rw [if_neg hkind, push]
    split
    · rfl
    · simp [ofKind, Ne.symm hkind]

def sectionsOf (m : OutputModule) (kinds : List FragmentKind) : Sections :=
  (kinds.filter fun kind => m.ofKind kind ≠ []).map fun kind => (kind, m.ofKind kind)

theorem sectionsOf_cons (m : OutputModule) (kind : FragmentKind) (kinds : List FragmentKind) :
    m.sectionsOf (kind :: kinds) =
      if m.ofKind kind = [] then m.sectionsOf kinds else (kind, m.ofKind kind) :: m.sectionsOf kinds := by
  by_cases hempty : m.ofKind kind = [] <;> simp [sectionsOf, hempty]

theorem sectionsOf_push_of_notMem {fragment : Fragment} (h : fragment.kind ∉ kinds) :
    (m.push fragment).sectionsOf kinds = m.sectionsOf kinds := by
  induction kinds with
  | nil => rfl
  | cons kind kinds ih =>
    rw [List.mem_cons, not_or] at h
    rw [sectionsOf_cons, sectionsOf_cons, ofKind_push, if_neg (Ne.symm h.1), ih h.2]

/-- Where all sections are of later kinds, a new one is made in front of them. -/
theorem push_sectionsOf_of_later {fragment : Fragment} (h : ∀ kind ∈ kinds, fragment.kind.rank < kind.rank) :
    (m.sectionsOf kinds).push fragment = (fragment.kind, pushAmong [] fragment) :: m.sectionsOf kinds := by
  cases hsections : m.sectionsOf kinds with
  | nil => rfl
  | cons front rest =>
    obtain ⟨kind, held⟩ := front
    have hmem : (kind, held) ∈ m.sectionsOf kinds := hsections ▸ List.mem_cons_self
    obtain ⟨kind, hkind, ⟨⟩⟩ := List.mem_map.mp hmem
    have hrank := h _ (List.mem_of_mem_filter hkind)
    rw [Sections.push, if_neg fun heq => by simp [heq] at hrank, if_pos hrank]

theorem sectionsOf_push {fragment : Fragment} (hsorted : kinds.Pairwise (·.rank < ·.rank))
    (hmem : fragment.kind ∈ kinds) :
    (m.push fragment).sectionsOf kinds = (m.sectionsOf kinds).push fragment := by
  induction kinds with
  | nil => cases hmem
  | cons kind kinds ih =>
    obtain ⟨hlater, hrest⟩ := List.pairwise_cons.mp hsorted
    rw [sectionsOf_cons, sectionsOf_cons, ofKind_push]
    by_cases hkind : kind = fragment.kind
    · subst hkind
      have hnone : fragment.kind ∉ kinds := fun hagain => Nat.lt_irrefl _ (hlater _ hagain)
      rw [if_pos rfl, if_neg (pushAmong_ne_nil _ _), sectionsOf_push_of_notMem hnone]
      split
      · rename_i hempty
        rw [push_sectionsOf_of_later hlater, hempty]
      · rw [Sections.push, if_pos rfl]
    · have hlast : fragment.kind ∈ kinds := (List.mem_cons.mp hmem).resolve_left (Ne.symm hkind)
      rw [if_neg hkind, ih hrest hlast]
      split
      · rfl
      · rw [Sections.push, if_neg hkind, if_neg (Nat.lt_asymm (hlater _ hlast))]

theorem sectionsOf_extend (m : OutputModule) (fragments : List Fragment) :
    (m.extend fragments).sectionsOf FragmentKind.all = fragments.foldl Sections.push (m.sectionsOf FragmentKind.all) := by
  induction fragments generalizing m with
  | nil => rfl
  | cons fragment rest ih =>
    rw [List.foldl_cons, ← sectionsOf_push FragmentKind.pairwise_rank fragment.kind.mem_all]
    exact ih (m.push fragment)

theorem flatMap_sectionsOf (m : OutputModule) (kinds : List FragmentKind) :
    (m.sectionsOf kinds).flatMap Prod.snd = kinds.flatMap m.ofKind := by
  induction kinds with
  | nil => rfl
  | cons kind kinds ih =>
    rw [sectionsOf_cons, List.flatMap_cons, ← ih]
    split
    · rename_i hempty
      rw [hempty, List.nil_append]
    · rw [List.flatMap_cons]

/-! ### The fragments of a module -/

theorem kind_of_mem_ofKind {fragment : Fragment} (h : fragment ∈ m.ofKind kind) : fragment.kind = kind := by
  simpa using (List.mem_filter.mp h).2

theorem sorted_fragments (m : OutputModule) : SortedByKind m.fragments := by
  refine List.pairwise_flatMap.mpr ⟨fun kind _ => ?_, ?_⟩
  · refine List.pairwise_of_forall_mem_list fun fragment hmem later hlater => ?_
    have hsame : fragment.kind = later.kind := (kind_of_mem_ofKind hmem).trans (kind_of_mem_ofKind hlater).symm
    exact Nat.le_of_eq (congrArg FragmentKind.rank hsame)
  · refine FragmentKind.pairwise_rank.imp fun hrank fragment hmem later hlater => ?_
    rw [kind_of_mem_ofKind hmem, kind_of_mem_ofKind hlater]
    exact Nat.le_of_lt hrank

theorem filter_fragments (m : OutputModule) (kind : FragmentKind) :
    m.fragments.filter (·.kind = kind) = m.ofKind kind := by
  have hsection (other : FragmentKind) :
      (m.ofKind other).filter (·.kind = kind) = if other = kind then m.ofKind kind else [] := by
    split
    · rename_i heq
      subst heq
      exact List.filter_eq_self.mpr fun fragment hmem => decide_eq_true (kind_of_mem_ofKind hmem)
    · rename_i hne
      exact List.filter_eq_nil_iff.mpr fun fragment hmem => by simpa [kind_of_mem_ofKind hmem] using hne
  rw [fragments, List.filter_flatMap]
  simp only [hsection]
  cases kind <;> simp [FragmentKind.all]

/-- A module writes the stable partition of what it was filled with, without the import lines that it had before. -/
theorem partitions_extend (shimSourceIdent : String) (pushed : List Fragment) :
    Partitions (withoutRepeatedImports pushed) (extend { shimSourceIdent } pushed).fragments where
  sorted := sorted_fragments _
  ofKind kind := by
    rw [filter_fragments]
    by_cases hkind : kind = .importLine
    · subst hkind
      have hnone : (ofKind { shimSourceIdent } .importLine).map (·.toFragmentId) = [] := rfl
      rw [imports_withoutRepeatedImports, imports_extend (hnone ▸ List.nodup_nil)]
      rfl
    · rw [filter_withoutRepeatedImports hkind, ofKind_extend hkind]
      rfl

/-! ### Filling a module -/

end OutputModule

inductive Addition where
  | fragment (fragment : Fragment)
  | header (header : String)
deriving DecidableEq

namespace Addition

def fragment? : Addition → Option Fragment
  | .fragment pushed => some pushed
  | .header _ => none

def header? : Addition → Option String
  | .fragment _ => none
  | .header path => some path

/-- Two ways of filling a module, that differ only in how fragments of different kinds and headers interleave. -/
structure Interleave (additions additions' : List Addition) : Prop where
  ofKind : ∀ kind, (additions.filterMap fragment?).filter (·.kind = kind) =
    (additions'.filterMap fragment?).filter (·.kind = kind)
  headers : additions.filterMap header? = additions'.filterMap header?

end Addition

namespace OutputModule

variable {m m' : OutputModule} {additions additions' : List Addition}

def add (m : OutputModule) : Addition → OutputModule
  | .fragment fragment => m.push fragment
  | .header header => m.addInclude header

def addAll (m : OutputModule) (additions : List Addition) : OutputModule :=
  additions.foldl add m

/-- The module that is filled from the beginning. -/
def filled (shimSourceIdent : String) (additions : List Addition) : OutputModule :=
  addAll { shimSourceIdent } additions

theorem push_addInclude (m : OutputModule) (header : String) (fragment : Fragment) :
    (m.addInclude header).push fragment = (m.push fragment).addInclude header := by
  simp only [push, addInclude]
  split <;> split <;> simp_all

theorem extend_addInclude (m : OutputModule) (header : String) (fragments : List Fragment) :
    (m.addInclude header).extend fragments = (m.extend fragments).addInclude header := by
  induction fragments generalizing m with
  | nil => rfl
  | cons fragment rest ih =>
    have hrest := ih (m.push fragment)
    rwa [← push_addInclude] at hrest

theorem addAll_eq (m : OutputModule) (additions : List Addition) :
    m.addAll additions =
      (additions.filterMap Addition.header?).foldl addInclude (m.extend (additions.filterMap Addition.fragment?)) := by
  induction additions generalizing m with
  | nil => rfl
  | cons addition rest ih =>
    cases addition with
    | fragment fragment => exact ih (m.push fragment)
    | header header =>
      have hrest := ih (m.addInclude header)
      rwa [extend_addInclude] at hrest

theorem shimSourceIdent_addAll (m : OutputModule) (additions : List Addition) :
    (m.addAll additions).shimSourceIdent = m.shimSourceIdent := by
  refine List.foldlRecOn (motive := fun m' : OutputModule => m'.shimSourceIdent = m.shimSourceIdent) _ _ rfl ?_
  intro m' hm' addition _
  rw [← hm']
  cases addition with
  | fragment pushed =>
    rw [add, push]
    split <;> rfl
  | header path =>
    rw [add, addInclude]
    split <;> rfl

theorem includes_addAll (m : OutputModule) (additions : List Addition) :
    (m.addAll additions).includes = (additions.filterMap Addition.header?).foldl Session.addHeader m.includes := by
  rw [addAll_eq, includes_addIncludes, includes_extend]

theorem ofKind_addAll (m : OutputModule) (additions : List Addition) (kind : FragmentKind) :
    (m.addAll additions).ofKind kind = (m.extend (additions.filterMap Addition.fragment?)).ofKind kind := by
  rw [addAll_eq, ofKind, added_addIncludes]
  rfl

theorem ofKind_extend_eq_foldl (m : OutputModule) (pushed : List Fragment) (kind : FragmentKind) :
    (m.extend pushed).ofKind kind = (pushed.filter (·.kind = kind)).foldl pushAmong (m.ofKind kind) := by
  induction pushed generalizing m with
  | nil => rfl
  | cons fragment rest ih =>
    have hrest := ih (m.push fragment)
    rw [ofKind_push] at hrest
    by_cases hkind : fragment.kind = kind
    · rw [if_pos hkind.symm] at hrest
      rwa [List.filter_cons_of_pos (by simpa using hkind), List.foldl_cons]
    · rw [if_neg (Ne.symm hkind)] at hrest
      rwa [List.filter_cons_of_neg (by simpa using hkind)]

/-- The parts of a module that are written are the same. -/
structure Alike (m m' : OutputModule) : Prop where
  shimSourceIdent : m.shimSourceIdent = m'.shimSourceIdent
  ofKind : m.ofKind = m'.ofKind
  includes : m.includes = m'.includes

theorem alike_addAll (m : OutputModule) (h : Addition.Interleave additions additions') :
    (m.addAll additions).Alike (m.addAll additions') where
  shimSourceIdent := by rw [shimSourceIdent_addAll, shimSourceIdent_addAll]
  ofKind := by
    funext kind
    rw [ofKind_addAll, ofKind_addAll, ofKind_extend_eq_foldl, ofKind_extend_eq_foldl, h.ofKind]
  includes := by rw [includes_addAll, includes_addAll, h.headers]

namespace Alike

variable (h : m.Alike m')
include h

theorem fragments : m.fragments = m'.fragments := by
  rw [OutputModule.fragments, OutputModule.fragments, h.ofKind]

theorem sectionText : m.sectionText = m'.sectionText := by
  funext kind
  rw [OutputModule.sectionText, OutputModule.sectionText, h.ofKind]

theorem shimSource : m.shimSource = m'.shimSource := by
  rw [OutputModule.shimSource, OutputModule.shimSource, h.includes, h.sectionText]

theorem shimConstant : m.shimConstant = m'.shimConstant := by
  unfold OutputModule.shimConstant
  rw [h.shimSourceIdent, h.shimSource]

theorem text (segments : Segments) : m.text segments = m'.text segments := by
  rw [OutputModule.text, OutputModule.text, h.ofKind, h.shimConstant, h.sectionText]

end Alike

theorem fragments_filled (shimSourceIdent : String) (additions : List Addition) :
    (filled shimSourceIdent additions).fragments =
      (extend { shimSourceIdent } (additions.filterMap Addition.fragment?)).fragments := by
  rw [fragments, filled, funext (ofKind_addAll _ additions)]
  rfl

/-- **How kinds interleave is not seen.** However a module was filled, its fragments are the stable partition of those
that it was filled with, less the import lines that had come before, and they are those of sections made on demand. So
two ways of filling a module that agree on every kind and on the headers give the same texts. -/
theorem filled_partitioned (shimSourceIdent : String) (additions : List Addition) :
    (∀ parts, Partitions (withoutRepeatedImports (additions.filterMap Addition.fragment?)) parts ↔
      parts = (filled shimSourceIdent additions).fragments) ∧
    ((additions.filterMap Addition.fragment?).foldl Sections.push []).flatMap Prod.snd =
      (filled shimSourceIdent additions).fragments ∧
    ∀ additions', Addition.Interleave additions additions' →
      (filled shimSourceIdent additions).fragments = (filled shimSourceIdent additions').fragments ∧
      (filled shimSourceIdent additions).shimSource = (filled shimSourceIdent additions').shimSource ∧
      (filled shimSourceIdent additions).shimConstant = (filled shimSourceIdent additions').shimConstant ∧
      ∀ segments, (filled shimSourceIdent additions).text segments =
        (filled shimSourceIdent additions').text segments := by
  have hpartitions := partitions_extend shimSourceIdent (additions.filterMap Addition.fragment?)
  rw [← fragments_filled] at hpartitions
  refine ⟨fun parts => ⟨fun h => h.unique hpartitions, fun h => h ▸ hpartitions⟩, ?_, fun additions' h => ?_⟩
  · rw [fragments_filled, fragments, ← flatMap_sectionsOf, sectionsOf_extend]
    rfl
  · have halike : (filled shimSourceIdent additions).Alike (filled shimSourceIdent additions') := alike_addAll _ h
    exact ⟨halike.fragments, halike.shimSource, halike.shimConstant, halike.text⟩

namespace Sample

def importOf (line : String) : Addition :=
  .fragment (Fragment.ofImport line)

def bindingOf (name : String) : Addition :=
  .fragment { kind := .functionBinding, name := name, text := "pub fn " ++ name ++ "() \x7b\x7d\n" }

def shimOf (name : String) : Addition :=
  .fragment { kind := .shim, name := name, text := "void " ++ name ++ "() \x7b\x7d\n" }

def byDeclaration : List Addition :=
  [importOf "use b::B;", bindingOf "f", shimOf "s_f", .header "f.h", importOf "use a::A;", importOf "use b::B;",
    bindingOf "g", shimOf "s_g", .header "g.h"]

def fromBehind : List Addition :=
  [.header "f.h", shimOf "s_f", shimOf "s_g", .header "g.h", bindingOf "f", bindingOf "g", importOf "use b::B;",
    importOf "use a::A;", importOf "use b::B;"]

end Sample

theorem filled_partitioned_fromBehind :
    Addition.Interleave Sample.byDeclaration Sample.fromBehind ∧ Sample.byDeclaration ≠ Sample.fromBehind ∧
    (filled "SHIM_SOURCE" Sample.byDeclaration).text {} = (filled "SHIM_SOURCE" Sample.fromBehind).text {} := by
  have hinterleave : Addition.Interleave Sample.byDeclaration Sample.fromBehind :=
    ⟨fun kind => by cases kind <;> decide, by decide⟩
  obtain ⟨-, -, hsame⟩ := filled_partitioned "SHIM_SOURCE" Sample.byDeclaration
  obtain ⟨-, -, -, htext⟩ := hsame _ hinterleave
  exact ⟨hinterleave, by decide, htext {}⟩

example : (filled "SHIM_SOURCE" Sample.byDeclaration).fragments.map (·.name) =
    ["use b::B;", "use a::A;", "f", "g", "s_f", "s_g"] := by
  decide +kernel

end OutputModule

end HostBinding
