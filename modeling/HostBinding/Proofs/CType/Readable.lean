import HostBinding.Proofs.CType.RoundTrip
import Mathlib.Data.List.TakeWhile

/-!
# What reading a spelling gives

Reading accepts more types than can be declared: references may stand below any other declarator. Two things
hold of every type that was read. Its leaf is named by the leaf's own spelling, and since all brackets of a
spelling that ends in one are taken off together, no array is inside the element of an array.
-/

namespace HostBinding.CType

open Text

/-- The types that spellings mean. -/
structure Readable (t : CType) : Prop where
  leaf : t.leaf.WellFormedLeaf
  arrays : ∀ a ∈ t.layers, a.isArray = true → ∀ u ∈ a.element.layers, u.isArray = false

variable {text target : List Char} {t u : CType}

/-! ### Cuts only drop characters -/

theorem trimStart_sublist (text : List Char) : (trimStart text).Sublist text :=
  List.dropWhile_sublist _

theorem trimEnd_sublist (text : List Char) : (trimEnd text).Sublist text := by
  simpa [trimEnd] using (List.dropWhile_sublist (l := text.reverse) isBlank).reverse

theorem trim_sublist (text : List Char) : (trim text).Sublist text :=
  (trimEnd_sublist _).trans (trimStart_sublist text)

theorem dropTrailingConst_sublist (text : List Char) : (dropTrailingConst text).Sublist text := by
  fun_induction dropTrailingConst text with
  | case1 text body rest _ ih => exact (ih.trans (List.take_sublist _ _)).trans (trimEnd_sublist text)
  | case2 text => exact trimEnd_sublist text

theorem splitConst_sublist (target : List Char) : (splitConst target).2.Sublist target := by
  have htrim := trim_sublist target
  simp only [splitConst]
  split
  · exact (dropTrailingConst_sublist _).trans htrim
  · split
    · exact ((trimStart_sublist _).trans (List.drop_sublist _ _)).trans htrim
    · exact htrim

/-! ### One cut -/

theorem wellFormedLeaf_of_leaf? (h : leaf? text = some t) : t.WellFormedLeaf := by
  rw [leaf?] at h
  split at h
  · cases h
  · rename_i first rest hwords
    dsimp only at h
    split at h
    · cases h
      trivial
    · rename_i hvoid
      split at h
      · rename_i kind hkind
        cases h
        exact hkind
      · rename_i hbuiltin
        rw [Option.ite_none_right_eq_some, Bool.and_eq_true, List.isEmpty_iff] at h
        obtain ⟨⟨rfl, hname⟩, heq⟩ := h
        cases heq
        rw [List.intercalate_singleton] at hvoid hbuiltin ⊢
        have hqualifier : first ∉ qualifierWords := by
          have hmem : first ∈ (words text).filter (!qualifierWords.contains ·) :=
            hwords ▸ List.mem_cons_self
          simpa using (List.mem_filter.mp hmem).2
        simpa only [WellFormedLeaf, String.toList_ofList] using ⟨hname, hvoid, hbuiltin, hqualifier⟩

/-- What a cut can give. A spelling that ends in a bracket is cut at its first one. -/
theorem outermost_cases {cut : Outermost} (h : outermost text = .ok cut) :
    (∃ t, cut = .leaf t ∧ t.WellFormedLeaf) ∨
    (∃ isConst target, target.Sublist text ∧
      (cut = .derived (.pointer isConst) target ∨ cut = .derived (.reference isConst) target)) ∨
    ∃ lengths target, cut = .derived (.bounds lengths) target ∧ '[' ∈ text ∧ '[' ∉ target := by
  have hbody : ((dropTrailingConst (trim text)).dropLast).Sublist text :=
    ((List.dropLast_sublist _).trans (dropTrailingConst_sublist _)).trans (trim_sublist text)
  have htarget := (splitConst_sublist (dropTrailingConst (trim text)).dropLast).trans hbody
  simp only [outermost] at h
  split at h
  · cases h
  · split at h
    · split at h
      · rename_i lengths hbounds
        cases h
        refine .inr (.inr ⟨lengths, _, rfl, ?_, ?_⟩)
        · by_contra hnone
          have hempty : (trim text).dropWhile (· != '[') = [] := by
            rw [List.dropWhile_eq_nil_iff]
            intro c hc
            rw [bne_iff_ne]
            rintro rfl
            exact hnone ((trim_sublist text).subset hc)
          rw [hempty] at hbounds
          cases hbounds
        · intro hmem
          have hbefore := List.mem_takeWhile_imp hmem
          simp at hbefore
      · cases h
    · split at h
      · cases h
      · split at h
        · cases h
          exact .inr (.inl ⟨_, _, htarget, .inr rfl⟩)
        · split at h
          · cases h
            exact .inr (.inl ⟨_, _, htarget, .inl rfl⟩)
          · split at h
            · rename_i t hleaf
              cases h
              exact .inl ⟨t, rfl, wellFormedLeaf_of_leaf? hleaf⟩
            · cases h

/-! ### Types that were read -/

theorem WellFormedLeaf.readable (h : t.WellFormedLeaf) :
    t.Readable ∧ ∀ u ∈ t.layers, u.isArray = false := by
  cases t with
  | pointer => cases h
  | reference => cases h
  | array => cases h
  | _ => exact ⟨⟨h, by simp [layers, inside, isArray]⟩, by simp [layers, inside, isArray]⟩

theorem Readable.pointer (h : t.Readable) (isConst : Bool) : (CType.pointer t isConst).Readable where
  leaf := h.leaf
  arrays := by
    intro a ha harray
    rcases List.mem_cons.mp ha with rfl | hinside
    · cases harray
    · exact h.arrays a hinside harray

theorem Readable.reference (h : t.Readable) (isConst : Bool) : (CType.reference t isConst).Readable where
  leaf := h.leaf
  arrays := by
    intro a ha harray
    rcases List.mem_cons.mp ha with rfl | hinside
    · cases harray
    · exact h.arrays a hinside harray

theorem Readable.of_mem_inside (h : t.Readable) (hu : u ∈ t.inside) : u.Readable where
  leaf := leaf_eq_of_mem_inside hu ▸ h.leaf
  arrays a ha := h.arrays a (List.mem_cons_of_mem _ (layers_subset_inside hu ha))

/-- Array bounds put around a type without arrays give a readable type. -/
theorem readable_bounds (lengths : List UInt64) (h : t.Readable)
    (hflat : ∀ u ∈ t.layers, u.isArray = false) :
    ((Declarator.bounds lengths).apply t).Readable ∧
      ((Declarator.bounds lengths).apply t).element = t := by
  induction lengths with
  | nil =>
    refine ⟨h, ?_⟩
    have hself := hflat t List.mem_cons_self
    cases t <;> simp_all [isArray, element, Declarator.apply]
  | cons length lengths ih =>
    obtain ⟨hreadable, helement⟩ := ih
    refine ⟨⟨hreadable.leaf, ?_⟩, helement⟩
    intro a ha harray
    rcases List.mem_cons.mp ha with rfl | hinside
    · change ∀ u ∈ ((Declarator.bounds lengths).apply t).element.layers, _
      rwa [helement]
    · exact hreadable.arrays a hinside harray

/-- **Types that were read are readable**, and hold arrays only if the spelling holds brackets. -/
theorem readable_of_ofChars (h : ofChars text = .ok t) :
    t.Readable ∧ ('[' ∉ text → ∀ u ∈ t.layers, u.isArray = false) := by
  fun_induction ofChars text generalizing t with
  | case1 => cases h
  | case3 => cases h
  | case2 text leaf hcut =>
    cases h
    rcases outermost_cases hcut with ⟨_, heq, hleaf⟩ | ⟨_, _, -, heq | heq⟩ | ⟨_, _, heq, -⟩ <;> cases heq
    exact ⟨hleaf.readable.1, fun _ => hleaf.readable.2⟩
  | case4 text declarator target hcut target' hread ih =>
    cases h
    obtain ⟨hreadable, hflat⟩ := ih hread
    rcases outermost_cases hcut with
      ⟨_, heq, -⟩ | ⟨isConst, _, hsublist, heq | heq⟩ | ⟨lengths, _, heq, hopen, hnone⟩ <;> cases heq
    · refine ⟨hreadable.pointer isConst, fun hnone => List.forall_mem_cons.mpr ⟨rfl, ?_⟩⟩
      exact hflat fun hmem => hnone (hsublist.subset hmem)
    · refine ⟨hreadable.reference isConst, fun hnone => List.forall_mem_cons.mpr ⟨rfl, ?_⟩⟩
      exact hflat fun hmem => hnone (hsublist.subset hmem)
    · exact ⟨(readable_bounds lengths hreadable (hflat hnone)).1, fun hclosed => absurd hopen hclosed⟩

end HostBinding.CType
