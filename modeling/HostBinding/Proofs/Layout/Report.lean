import HostBinding.Layout.Report
import HostBinding.Proofs.Layout.Depth

/-!
# What reports on layouts say

Reports on a set of declarations are made as soon as every struct of the set has a layout, and each is of the
layout that its struct has. What a resolver knows from earlier reports is told by their names.
-/

namespace HostBinding.LayoutReport

variable {r : Resolver} {structs : List StructDecl} {reports : List LayoutReport}

theorem collect_of_laysOut (mapping : Mapping) (hmemo : r.Remembers r.memo)
    (h : ∀ decl ∈ structs, ∃ layout, r.LaysOut decl.name layout) :
    ∃ reports, collect mapping r structs = .ok reports ∧
      List.Forall₂ (fun decl report => r.LaysOut decl.name report.layout) structs reports := by
  induction structs generalizing r with
  | nil => exact ⟨[], rfl, .nil⟩
  | cons decl rest ih =>
    obtain ⟨⟨layout, hlayout⟩, hrest⟩ := List.forall_mem_cons.mp h
    obtain ⟨memo, hresolve, hfound⟩ := Resolver.resolve_of_laysOut hmemo hlayout
    -- what the first struct adds to the memo does not change what the others lay out to
    obtain ⟨reports, hcollect, hreports⟩ := ih (r := { r with memo := memo })
      (Resolver.remembers_withMemo.mpr hfound) (by simpa only [Resolver.laysOut_withMemo] using hrest)
    simp only [Resolver.laysOut_withMemo] at hreports
    exact ⟨_, by rw [collect, hresolve]; simp only [hcollect]; rfl, .cons hlayout hreports⟩

/-- The resolver that reports on a set of declarations after earlier reports. -/
def resolver (pointerWidth : Nat) (earlier : List LayoutReport) (decls : Declarations) : Resolver :=
  earlier.foldl (fun r report => r.addKnown report.layout.name report.layout.toExtent)
    { pointerWidth := pointerWidth, structs := decls.structs }

theorem foldl_addKnown_eq (r : Resolver) (reports : List LayoutReport) :
    ∃ known, reports.foldl (fun r report => r.addKnown report.layout.name report.layout.toExtent) r =
      { r with known := known } := by
  induction reports generalizing r with
  | nil => exact ⟨r.known, rfl⟩
  | cons report rest ih =>
    obtain ⟨known, hknown⟩ := ih (r.addKnown report.layout.name report.layout.toExtent)
    exact ⟨known, hknown⟩

/-- A resolver that is told all reports knows what they all agree with. -/
theorem get?_known_foldl_addKnown (extent? : String → Option Extent)
    (hreports : ∀ report ∈ reports, extent? report.layout.name = some report.layout.toExtent)
    (hknown : ∀ name, r.known.get? name = extent? name ∨ ∃ report ∈ reports, report.layout.name = name)
    (name : String) :
    (reports.foldl (fun r report => r.addKnown report.layout.name report.layout.toExtent) r).known.get? name =
      extent? name := by
  induction reports generalizing r with
  | nil => simpa using hknown name
  | cons report rest ih =>
    obtain ⟨hfirst, hrest⟩ := List.forall_mem_cons.mp hreports
    refine ih hrest fun other => ?_
    show (r.known.insert _ _).get? other = extent? other ∨ _
    rw [Table.get?_insert]
    split
    · rename_i heq
      exact .inl (heq ▸ hfirst.symm)
    · rename_i hne
      refine (hknown other).imp_right fun hreported => ?_
      obtain ⟨found, hmem, rfl⟩ := hreported
      rcases List.mem_cons.mp hmem with rfl | hlater
      · exact absurd rfl hne
      · exact ⟨found, hlater, rfl⟩

/-- Reports on a set can be added as soon as every struct of the set has a layout. -/
theorem extend_of_laysOut (mapping : Mapping) {pointerWidth : Nat} {decls : Declarations}
    (h : ∀ decl ∈ decls.structs, ∃ layout, (resolver pointerWidth reports decls).LaysOut decl.name layout) :
    ∃ added, extend mapping pointerWidth reports decls = .ok (reports ++ added) ∧
      List.Forall₂ (fun decl report => (resolver pointerWidth reports decls).LaysOut decl.name report.layout)
        decls.structs added := by
  have hmemo : (resolver pointerWidth reports decls).memo = ∅ := by
    obtain ⟨known, hknown⟩ :=
      foldl_addKnown_eq { pointerWidth := pointerWidth, structs := decls.structs } reports
    rw [resolver, hknown]
  obtain ⟨added, hcollect, hadded⟩ := collect_of_laysOut mapping
    (fun _ _ hheld => by rw [hmemo] at hheld; cases hheld) h
  refine ⟨added, ?_, hadded⟩
  rw [extend, ← resolver, hcollect]
  rfl

/-- A resolver of the same declarations that knows what the reports say lays out the same. -/
theorem laysOut_resolver_iff {decls : Declarations} (hstructs : r.structs = decls.structs)
    (hreports : ∀ report ∈ reports, r.known.get? report.layout.name = some report.layout.toExtent)
    (hknown : ∀ name extent, r.known.get? name = some extent → ∃ report ∈ reports, report.layout.name = name)
    {name : String} {layout : StructLayout} :
    (resolver r.pointerWidth reports decls).LaysOut name layout ↔ r.LaysOut name layout := by
  obtain ⟨known, hresolver⟩ :=
    foldl_addKnown_eq { pointerWidth := r.pointerWidth, structs := decls.structs } reports
  refine Resolver.laysOut_congr ?_ ?_ ?_
  · rw [resolver, hresolver]
  · exact fun name => by rw [resolver, hresolver, Resolver.declared?, Resolver.declared?, hstructs]
  · refine get?_known_foldl_addKnown r.known.get? hreports fun name => ?_
    cases hheld : r.known.get? name with
    | none => exact .inl rfl
    | some extent => exact .inr (hknown name extent hheld)

end HostBinding.LayoutReport
