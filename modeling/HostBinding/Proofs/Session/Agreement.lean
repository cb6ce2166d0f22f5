import HostBinding.Job.Render
import HostBinding.Proofs.Layout.Report
import HostBinding.Proofs.Session.StructRun
import HostBinding.Proofs.StructBinding.Layouts

/-!
# Reports and proxies agree

Layouts are found in two ways. The layout job lays out every struct of every set, and knows the structs of
earlier sets by its own reports. The render job lays out only what it does not remember, and knows the structs
of earlier sets by their proxies. The two go through the sets in step: whatever one of them knows when a set
begins, the other knows too, so what they find in that set is the same again.
-/

namespace HostBinding.Session

variable {mapping : Mapping} {config : Config} {s s' : Session} {decls : Declarations}
  {sets : List Declarations} {reports : List LayoutReport}

theorem renderStructs_eq_ok_iff : s.renderStructs mapping decls = .ok s' ↔
    (∃ module, ((decls.structBatch mapping).render s).2 = .ok module) ∧
      ((decls.structBatch mapping).render s).1 = s' := by
  rw [renderStructs]
  cases (decls.structBatch mapping).render s with
  | mk session result => cases result <;> simp [afterBatch]

/-- The invariant of two jobs that have gone through the same sets. -/
structure Agrees (s : Session) (reports : List LayoutReport) : Prop where
  grounded : s.Grounded
  reported : ∀ report ∈ reports, ∃ proxy, s.proxy? report.layout.name = some proxy ∧
    proxy.toExtent = report.layout.toExtent
  complete : ∀ name proxy, s.proxy? name = some proxy → ∃ report ∈ reports, report.layout.name = name

theorem agrees_new : Agrees { config := config } [] where
  grounded := ⟨sound_new.recorded, fun _ _ h => by cases h⟩
  reported := by simp
  complete _ _ h := by cases h

theorem Agrees.laysOut_iff (h : s.Agrees reports) {name : String} {layout : StructLayout} :
    (LayoutReport.resolver s.config.pointerWidth.toNat reports decls).LaysOut name layout ↔
      ((decls.structBatch mapping).resolver s).LaysOut name layout := by
  refine LayoutReport.laysOut_resolver_iff (r := (decls.structBatch mapping).resolver s) rfl ?_ ?_
  · intro report hmem
    obtain ⟨proxy, hproxy, hextent⟩ := h.reported report hmem
    rw [StructBatch.get?_known, hproxy, Option.map_some, hextent]
  · intro name extent hextent
    rw [StructBatch.get?_known] at hextent
    obtain ⟨proxy, hproxy, -⟩ := Option.map_eq_some_iff.mp hextent
    exact h.complete name proxy hproxy

/-- One more set: when its structs can be rendered they can be reported on, and the jobs still agree. -/
theorem Agrees.step (h : s.Agrees reports) (hreadable : ∀ decl ∈ decls.structs, decl.Readable)
    (hok : s.renderStructs mapping decls = .ok s') :
    s'.config = s.config ∧ ∃ added,
      LayoutReport.extend mapping s.config.pointerWidth.toNat reports decls = .ok (reports ++ added) ∧
      added.map (·.layout.name) = decls.structs.map (·.name) ∧ s'.Agrees (reports ++ added) := by
  obtain ⟨⟨module, hmodule⟩, rfl⟩ := renderStructs_eq_ok_iff.mp hok
  obtain ⟨state, hstate, hanswered⟩ := StructBatch.answered_of_render h.grounded.toRecorded hmodule
  obtain ⟨added, hextend, hadded⟩ := LayoutReport.extend_of_laysOut mapping (fun decl hmem => by
    obtain ⟨layout, -, hlayout, -⟩ := hanswered.laysOut h.grounded hreadable hmem
    exact ⟨layout, h.laysOut_iff.mpr hlayout⟩)
  have hnames : added.map (·.layout.name) = decls.structs.map (·.name) :=
    (map_eq_map_of_forall₂ hadded fun _ _ hlayout => hlayout.name_eq.symm).symm
  rw [hstate]
  refine ⟨hanswered.config, added, hextend, hnames, ?_⟩
  constructor
  case grounded => exact hanswered.grounded h.grounded hreadable
  case reported =>
    refine List.forall_mem_append.mpr ⟨fun report hmem => ?_, ?_⟩
    · obtain ⟨proxy, hproxy, hextent⟩ := h.reported report hmem
      exact ⟨proxy, hanswered.kept _ _ hproxy, hextent⟩
    · refine forall_mem_of_forall₂ hadded fun decl report hlayout => ?_
      rw [hlayout.name_eq]
      exact hanswered.proxy?_of_laysOut h.grounded hreadable (h.laysOut_iff.mp hlayout)
  case complete =>
    intro name proxy hproxy
    rcases hanswered.declared_of_proxy? hproxy with hold | hdeclared
    · obtain ⟨report, hmem, hname⟩ := h.complete name proxy hold
      exact ⟨report, List.mem_append_left _ hmem, hname⟩
    · have hreported : name ∈ added.map (·.layout.name) := hnames ▸ hdeclared
      obtain ⟨report, hmem, hname⟩ := List.mem_map.mp hreported
      exact ⟨report, List.mem_append_right _ hmem, hname⟩

theorem Agrees.run (h : s.Agrees reports)
    (hreadable : ∀ decls ∈ sets, ∀ decl ∈ decls.structs, decl.Readable)
    (hok : sets.foldlM (renderStructs mapping) s = .ok s') :
    ∃ added, sets.foldlM (LayoutReport.extend mapping s.config.pointerWidth.toNat) reports =
        .ok (reports ++ added) ∧
      added.map (·.layout.name) = sets.flatMap (·.structs.map (·.name)) ∧ s'.Agrees (reports ++ added) := by
  induction sets generalizing s reports with
  | nil =>
    cases hok
    exact ⟨[], by simp [pure, Except.pure], rfl, by simpa using h⟩
  | cons decls rest ih =>
    obtain ⟨hfirst, hrest⟩ := List.forall_mem_cons.mp hreadable
    rw [List.foldlM_cons, bind_eq_ok_iff] at hok
    obtain ⟨next, hrendered, hok⟩ := hok
    obtain ⟨hconfig, added, hextend, hnames, hnext⟩ := h.step hfirst hrendered
    obtain ⟨later, hlater, hnamesLater, hagrees⟩ := ih hnext hrest hok
    rw [hconfig] at hlater
    rw [List.append_assoc] at hlater hagrees
    refine ⟨added ++ later, ?_, ?_, hagrees⟩
    · rw [List.foldlM_cons, hextend]
      exact hlater
    · rw [List.map_append, hnames, hnamesLater, List.flatMap_cons]

/-- **The layout job and the render job agree**: when the structs of all sets can be rendered into a new
session, all of them can be reported on, and each report states the size and the alignment of the proxy that
is registered under its name. -/
theorem reports_eq_proxies
    (hread : ∀ decls ∈ sets, ∀ decl ∈ decls.structs, ∀ field ∈ decl.fields,
      ∃ spelling, CType.ofSpelling spelling = .ok field.type)
    (hok : sets.foldlM (renderStructs mapping) { config := config } = .ok s) :
    ∃ reports, sets.foldlM (LayoutReport.extend mapping config.pointerWidth.toNat) [] = .ok reports ∧
      reports.map (·.layout.name) = sets.flatMap (·.structs.map (·.name)) ∧
      ∀ report ∈ reports, ∃ proxy, s.proxy? report.layout.name = some proxy ∧
        proxy.toExtent = report.layout.toExtent := by
  have hreadable : ∀ decls ∈ sets, ∀ decl ∈ decls.structs, decl.Readable := by
    intro decls hdecls decl hdecl field hfield
    obtain ⟨spelling, hspelling⟩ := hread decls hdecls decl hdecl field hfield
    exact (CType.readable_of_ofChars hspelling).1
  obtain ⟨reports, hreports, hnames, hagrees⟩ := agrees_new.run hreadable hok
  exact ⟨reports, hreports, hnames, hagrees.reported⟩

/-! ### Two sets that share a struct -/

namespace Sample

def sheet : Mapping :=
  Table.ofList [("Outline", { header := "sheet.h" }), ("Corner", { header := "sheet.h", model := .bytes }),
    ("Shade", { header := "sheet.h" }), ("Figure", { header := "figure.h" })]

def corner : StructDecl where
  name := "Corner"
  fields := [⟨"x", .ofPrimitive (.floating .f64)⟩, ⟨"y", .ofPrimitive (.floating .f64)⟩]

def sheets : List Declarations :=
  [{ header := "sheet.h"
     structs := [
       { name := "Outline", fields := [⟨"corners", .array (.named "Corner") 3⟩, ⟨"shade", .named "Shade"⟩,
           ⟨"next", .pointer (.named "Outline") true⟩] },
       corner,
       { name := "Shade", fields := [⟨"bits", .array (.ofPrimitive (.integral .u8)) 3⟩] }] },
   { header := "figure.h"
     structs := [corner, { name := "Figure", fields := [⟨"id", .ofPrimitive (.integral .u16)⟩,
       ⟨"outline", .named "Outline"⟩, ⟨"at", .named "Corner"⟩] }] }]

end Sample

theorem reports_eq_proxies_sheets :
    ∃ session reports, Sample.sheets.foldlM (renderStructs Sample.sheet) { config := {} } = .ok session ∧
      Sample.sheets.foldlM (LayoutReport.extend Sample.sheet 8) [] = .ok reports ∧
      reports.map (·.layout.name) = ["Outline", "Corner", "Shade", "Corner", "Figure"] ∧
      ∀ report ∈ reports, ∃ proxy, session.proxy? report.layout.name = some proxy ∧
        proxy.toExtent = report.layout.toExtent := by
  have hread : ∀ decls ∈ Sample.sheets, ∀ decl ∈ decls.structs, ∀ field ∈ decl.fields,
      CType.ofSpelling field.type.spell = .ok field.type := by decide +kernel
  have hok : (Sample.sheets.foldlM (renderStructs Sample.sheet) { config := {} }).toOption.isSome := by
    decide +kernel
  obtain ⟨session, hok⟩ := exists_of_isSome_toOption hok
  obtain ⟨reports, hreports, hnames, hagree⟩ := reports_eq_proxies
    (fun decls hdecls decl hdecl field hfield => ⟨_, hread decls hdecls decl hdecl field hfield⟩) hok
  exact ⟨session, reports, hok, hreports, hnames, hagree⟩

/-- A field of a repeated struct takes what the first report on it says. -/
example : (Sample.sheets.foldlM (LayoutReport.extend Sample.sheet 8) []).map (·.map (·.layout.toExtent)) =
    .ok [⟨64, 8⟩, ⟨16, 8⟩, ⟨3, 1⟩, ⟨16, 8⟩, ⟨88, 8⟩] := by
  decide +kernel

end HostBinding.Session
