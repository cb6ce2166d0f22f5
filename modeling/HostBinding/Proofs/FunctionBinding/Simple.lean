import HostBinding.Proofs.CType.Reread
import HostBinding.Proofs.Session.Transparency

/-!
# Functions that their key determines

A key holds the spellings of types, and types that were read may share a spelling. A leaf and a reference to
a leaf share theirs with no other type. So a function that takes and returns only such types renders like
every other function with its key.
-/

namespace HostBinding

namespace CType

def isLeaf : CType → Bool
  | .void | .primitive _ _ | .named _ => true
  | _ => false

/-- The type is a leaf or a reference to one. -/
def isSimple (t : CType) : Bool :=
  t.stripReference.isLeaf

variable {t u target : CType} {isConst : Bool}

theorem Readable.wellFormedLeaf (h : t.Readable) (hleaf : t.isLeaf = true) : t.WellFormedLeaf := by
  cases t with
  | pointer => cases hleaf
  | reference => cases hleaf
  | array => cases hleaf
  | _ => exact h.leaf

theorem ampersand_mem_spell (h : t.holdsConstReference = true) : '&' ∈ t.spell.toList := by
  induction t with
  | reference target isConst => simp [spell_reference]
  | pointer target isConst ih =>
    rw [spell_pointer, List.mem_append, mem_qualified (by decide) (by decide)]
    exact .inl (ih h)
  | array element length ih =>
    have hmem := ih h
    rw [spell_toList] at hmem ⊢
    have hbounds : ∀ lengths, '&' ∉ boundChars lengths :=
      fun lengths => not_mem_boundChars (by decide) (by decide) (by decide)
    rw [List.mem_append, or_iff_left (hbounds _)] at hmem
    exact List.mem_append_left _ hmem
  | _ => cases h

/-- A leaf shares its spelling with no other type. -/
theorem eq_of_spell_eq_leaf (ht : t.WellFormedLeaf) (hu : u.Readable) (h : t.spell = u.spell) : t = u := by
  have hcut : Outermost.leaf t = u.outside := by
    have hboth := ht.outermost_eq.symm.trans (h ▸ hu.outermost_spell)
    exact Except.ok.inj hboth
  cases u with
  | pointer => cases hcut
  | reference => cases hcut
  | array => cases hcut
  | _ => exact Outermost.leaf.inj hcut

/-- Whether a reference to a leaf is `const` shows, also beside references to other types. -/
theorem keepsConst_of_qualified_eq (ht : t.WellFormedLeaf) (hu : target.leaf.WellFormedLeaf)
    {isConst' : Bool} (h : qualified isConst t = qualified isConst' target) :
    (CType.reference target isConst').keepsConst = true := by
  have hstar : '*' ∉ qualified isConst t := by
    rw [mem_qualified (by decide) (by decide)]
    exact ht.leafText.declarators '*' (by decide)
  have hampersand : '&' ∉ qualified isConst t := by
    rw [mem_qualified (by decide) (by decide)]
    exact ht.leafText.declarators '&' (by decide)
  rw [h, mem_qualified (by decide) (by decide)] at hstar hampersand
  rw [star_mem_spell_iff hu, Bool.not_eq_true] at hstar
  have hreference : target.holdsConstReference = false := by
    rw [← Bool.not_eq_true]
    exact fun hholds => hampersand (ampersand_mem_spell hholds)
  cases isConst' <;> simp [keepsConst, hstar, hreference]

/-- **A simple type shares its spelling with no other type.** -/
theorem eq_of_spell_eq (ht : t.Readable) (hu : u.Readable) (hsimple : t.isSimple = true)
    (h : t.spell = u.spell) : t = u := by
  cases t with
  | pointer => cases hsimple
  | array => cases hsimple
  | reference target isConst =>
    have htarget : target.WellFormedLeaf :=
      (ht.of_mem_inside List.mem_cons_self).wellFormedLeaf hsimple
    have hcut : (CType.reference target isConst).outside = u.outside := by
      have hboth := ht.outermost_spell.symm.trans (h ▸ hu.outermost_spell)
      exact Except.ok.inj hboth
    cases u with
    | void => cases hcut
    | primitive => cases hcut
    | named => cases hcut
    | pointer => cases hcut
    | array => cases hcut
    | reference target' isConst' =>
      have hqualified : qualified isConst target = qualified isConst' target' := by
        have hlist := congrArg String.toList h
        rw [spell_reference, spell_reference] at hlist
        exact List.append_cancel_right hlist
      have hleaf : target.leaf.WellFormedLeaf := ht.leaf
      have hleaf' : target'.leaf.WellFormedLeaf := hu.leaf
      have hkeeps := keepsConst_of_qualified_eq htarget hleaf (Eq.refl (qualified isConst target))
      have hsplit := splitConst_of_keepsConst hleaf hkeeps
      rw [hqualified, splitConst_of_keepsConst hleaf' (keepsConst_of_qualified_eq htarget hleaf' hqualified),
        Prod.mk.injEq] at hsplit
      have htargets := eq_of_spell_eq_leaf htarget (hu.of_mem_inside List.mem_cons_self)
        (String.toList_inj.mp hsplit.2.symm)
      rw [htargets, hsplit.1]
  | _ => exact eq_of_spell_eq_leaf (ht.wellFormedLeaf rfl) hu h

end CType

namespace FunctionDecl

def types (decl : FunctionDecl) : List CType :=
  decl.returnType :: decl.params.map (·.type)

def Readable (decl : FunctionDecl) : Prop :=
  ∀ type ∈ decl.types, ∃ text, CType.ofSpelling text = .ok type

/-- The function takes and returns only leaves and references to leaves. -/
def isSimple (decl : FunctionDecl) : Bool :=
  decl.types.all (·.isSimple)

variable {decl decl' : FunctionDecl}

theorem types_eq_of_spell_eq (hdecl : decl.Readable) (hdecl' : decl'.Readable) (hsimple : decl.isSimple = true)
    (h : decl.types.map (·.spell) = decl'.types.map (·.spell)) : decl.types = decl'.types := by
  have hread : ∀ type ∈ decl.types, type.Readable ∧ type.isSimple = true := fun type hmem =>
    ⟨(hdecl type hmem).elim fun _ htext => (CType.readable_of_ofChars htext).1,
      List.all_eq_true.mp hsimple type hmem⟩
  have hread' : ∀ type ∈ decl'.types, type.Readable := fun type hmem =>
    (hdecl' type hmem).elim fun _ htext => (CType.readable_of_ofChars htext).1
  clear hsimple
  generalize decl.types = types at hread h
  generalize decl'.types = types' at hread' h
  induction types generalizing types' with
  | nil => exact (List.map_eq_nil_iff.mp h.symm).symm
  | cons type rest ih =>
    cases types' with
    | nil => cases h
    | cons type' rest' =>
      rw [List.map_cons, List.map_cons, List.cons.injEq] at h
      obtain ⟨hreadable, hsimple⟩ := hread type List.mem_cons_self
      rw [CType.eq_of_spell_eq hreadable (hread' type' List.mem_cons_self) hsimple h.1]
      rw [ih (fun t hmem => hread t (List.mem_cons_of_mem _ hmem)) rest'
        (fun t hmem => hread' t (List.mem_cons_of_mem _ hmem)) h.2]

end FunctionDecl

/-- **A simple function renders like every function with its key.** -/
theorem FunctionBatch.build_eq_ok_iff_of_key_eq {batch batch' : FunctionBatch} {session : Session}
    {decl decl' : FunctionDecl} {rendering : Rendering} (hkey : batch.key decl = batch'.key decl')
    (hdecl : decl.Readable) (hdecl' : decl'.Readable) (hsimple : decl.isSimple = true) :
    batch.build session decl = .ok rendering ↔ batch'.build session decl' = .ok rendering := by
  obtain ⟨hheader, hname, hret, hnames, htypes, hoperator, hoverloaded⟩ := of_key_eq hkey
  have htypes : decl.types = decl'.types := by
    refine FunctionDecl.types_eq_of_spell_eq hdecl hdecl' hsimple ?_
    simpa [FunctionDecl.types, hret, Function.comp_def] using htypes
  obtain ⟨hret, hparams⟩ := List.cons.inj htypes
  rw [build_eq_ok_iff, build_eq_ok_iff]
  refine exists_congr fun plan => and_congr ?_ ?_
  · rw [hoverloaded]
    exact FunctionDecl.plan_eq_ok_iff_of_types_eq hname hoperator hnames hparams hret
  · rw [FunctionBatch.rendering, FunctionBatch.rendering, hheader]

end HostBinding
