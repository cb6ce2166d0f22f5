import HostBinding.Proofs.Layout.Declared
import HostBinding.Proofs.Session.Committed
import HostBinding.Proofs.Session.Returned

/-!
# Structs that are declared more than once

A layout is looked up by the name of a struct, and its numbers are then given to the fields of the declaration that
is being rendered. With two declarations of one name these are not the same: the layout is that of the last one. The
first is committed with it before the second is met. A batch that goes through is free of this, because a struct is
remembered under one key only, and a key holds the fields.
-/

namespace HostBinding

open StructBinding

/-- A struct is remembered under one key at most. -/
theorem Session.Reachable.key_eq {config : Config} {s : Session} {key key' : DeclKey} {held held' : Rendering}
    (hs : Reachable config s) (hheld : s.renderings.get? key = some held)
    (hheld' : s.renderings.get? key' = some held') (hkind : key.kind = .struct) (hkind' : key'.kind = .struct)
    (hname : key.name = key'.name) : key = key' := by
  obtain ⟨decl, entry, layout, body, hdecl, rfl⟩ := hs.exists_written hheld hkind
  obtain ⟨decl', entry', layout', body', hdecl', rfl⟩ := hs.exists_written hheld' hkind'
  exact hs.coherent.key_eq hheld hheld' (hdecl.symm.trans (hname.trans hdecl'))

/-! ### What is stated about a declaration -/

namespace Resolver

variable {r : Resolver} {decl : StructDecl} {layout : StructLayout} {own : HostLayout}

theorem States.parts (h : States layout decl own) (hown : r.HasLayout decl own) :
    layout.fields.map (·.name) = decl.fields.map (·.name) ∧ layout.fields.map (·.offset) = own.offsets := by
  have hlength : (decl.fields.map (·.name)).length = own.offsets.length := by
    rw [List.length_map, hown.length_offsets]
  have hnames := congrArg (List.map Prod.fst) h.offsets
  have hoffsets := congrArg (List.map Prod.snd) h.offsets
  rw [List.map_map, List.map_fst_zip hlength.le] at hnames
  rw [List.map_map, List.map_snd_zip hlength.ge] at hoffsets
  exact ⟨hnames, hoffsets⟩

end Resolver

namespace StructBatch

variable {config : Config} {batch : StructBatch} {s : Session} {before after : List StructDecl}
  {decl last : StructDecl} {entry : TypeMapping} {rendering : Rendering} {layout : StructLayout} {body : ProxyBody}
  {model : ProxyModel} {own : HostLayout}

/-- What is written for a declaration states its own layout: on the native side, and on the host side with one
offset for each declared field. -/
def StatesOwn (r : Resolver) (decl : StructDecl) (layout : StructLayout) (body : ProxyBody) : Prop :=
  ∃ own, r.HasLayout decl own ∧ own.offsets.length = decl.fields.length ∧ Resolver.States layout decl own ∧
    ∀ fields, body = .fieldwise fields →
      (fields.map fun field => (field.nativeName, field.offset)) = (decl.fields.map (·.name)).zip own.offsets

/-- The proxy fields follow the native ones. -/
theorem statesOwn_iff (hbody : batch.body s decl model layout = .ok body) :
    StatesOwn (batch.resolver s) decl layout body ↔
      ∃ own, (batch.resolver s).HasLayout decl own ∧ Resolver.States layout decl own := by
  constructor
  · rintro ⟨own, hown, -, hstates, -⟩
    exact ⟨own, hown, hstates⟩
  · rintro ⟨own, hown, hstates⟩
    refine ⟨own, hown, hown.length_offsets, hstates, ?_⟩
    rintro fields rfl
    obtain ⟨hnames, hoffsets⟩ := hstates.parts hown
    have hfields : batch.proxyFields s decl layout = .ok fields := by
      cases model with
      | bytes => cases hbody
      | fieldwise =>
        obtain ⟨fields', hfields, heq⟩ := map_eq_ok_iff.mp hbody
        cases heq
        exact hfields
    have hlength : layout.fields.length = decl.fields.length := by simpa using congrArg List.length hnames
    obtain ⟨hnative, hstated, -⟩ := made_of_proxyFields hlength hfields
    rw [← hnative, ← hoffsets, ← hstated, List.zip_map']

theorem StatesOwn.statesLayout {r : Resolver} {key : DeclKey} {p : ProxyText} (h : StatesOwn r decl layout body)
    (hstates : s.StatesLayout key p body layout.toExtent (body.fields.map (·.offset)) layout.offsets) :
    ∃ own, r.HasLayout decl own ∧
      s.StatesLayout key p body own.toExtent own.offsets ((decl.fields.map (·.name)).zip own.offsets) := by
  obtain ⟨own, hown, hlength, hnumbers, hfields⟩ := h
  refine ⟨own, hown, ?_⟩
  rw [← hnumbers.extent, ← hnumbers.offsets]
  refine hstates.congr ?_
  rintro fields rfl -
  have hoffsets := congrArg (List.map Prod.snd) (hfields fields rfl)
  rw [List.map_map, List.map_snd_zip (by rw [hlength, List.length_map])] at hoffsets
  exact hoffsets.symm

/-- A declaration is stated with the layout of another one exactly when the two have the same layout and their
fields are called alike. -/
theorem exists_states_iff (hlast : (batch.resolver s).HasLayout last own) (hstates : Resolver.States layout last own) :
    (∃ own, (batch.resolver s).HasLayout decl own ∧ Resolver.States layout decl own) ↔
      decl.fields.map (·.name) = last.fields.map (·.name) ∧
      ∃ own, (batch.resolver s).HasLayout decl own ∧ (batch.resolver s).HasLayout last own := by
  obtain ⟨hnames, hoffsets⟩ := hstates.parts hlast
  constructor
  · rintro ⟨own', hown', hstates'⟩
    obtain ⟨hnames', hoffsets'⟩ := hstates'.parts hown'
    have hsame : own' = own := by
      obtain ⟨extent, offsets⟩ := own
      obtain ⟨extent', offsets'⟩ := own'
      rw [HostLayout.mk.injEq]
      exact ⟨hstates'.extent.symm.trans hstates.extent, hoffsets'.symm.trans hoffsets⟩
    exact ⟨hnames'.symm.trans hnames, own, hsame ▸ hown', hlast⟩
  · rintro ⟨hfields, own', hown', hlast'⟩
    obtain rfl := hlast'.unique hlast
    exact ⟨own', hown', hstates.extent, hfields ▸ hstates.offsets⟩

/-! ### Declarations of one name -/

/-- The last declaration of a name does not stand before another one of the name. -/
theorem mem_of_declared? (hsplit : batch.structs = before ++ decl :: after)
    (hlast : (batch.resolver s).declared? decl.name = some last) : last ∈ decl :: after := by
  have hfound : ((decl :: after).reverse.find? (·.name = decl.name)).isSome = true :=
    List.find?_isSome.mpr ⟨decl, by simp, by simp⟩
  obtain ⟨found, hfound⟩ := Option.isSome_iff_exists.mp hfound
  have hsame : (batch.resolver s).declared? decl.name = some found := by
    rw [Resolver.declared?, StructBatch.resolver, hsplit, List.reverse_append, List.find?_append, hfound]
    rfl
  obtain rfl : last = found := Option.some.inj (hlast.symm.trans hsame)
  exact List.mem_reverse.mp (List.mem_of_find?_eq_some hfound)

/-- In a batch that goes through, declarations of one name have one key. -/
theorem key_eq_of_render {module : OutputModule} (hs : s.Reachable config) (hok : (batch.render s).2 = .ok module)
    (hdecl : decl ∈ batch.structs) (hlast : last ∈ batch.structs) (hname : decl.name = last.name) :
    ∃ entry, batch.key decl entry = batch.key last entry := by
  obtain ⟨renderings, final, hchain, hfinal, -⟩ := StructBatch.exists_chain hs.regular hok
  have hheld := (hchain.remembered_of_keeps batch.entersBy fun _ _ h => Bool.false_ne_true h.1).1
  obtain ⟨key, hkey, hheldDecl⟩ := hheld decl hdecl
  obtain ⟨key', hkey', hheldLast⟩ := hheld last hlast
  obtain ⟨entry, hentry, rfl⟩ := Option.map_eq_some_iff.mp hkey
  obtain ⟨entry', hentry', rfl⟩ := Option.map_eq_some_iff.mp hkey'
  obtain rfl : entry' = entry := Option.some.inj (hentry'.symm.trans (hname ▸ hentry))
  rw [hfinal] at hheldDecl hheldLast
  obtain ⟨held, hheldDecl⟩ := Option.isSome_iff_exists.mp hheldDecl
  obtain ⟨held', hheldLast⟩ := Option.isSome_iff_exists.mp hheldLast
  exact ⟨entry', (Session.Reachable.structs batch hs).key_eq hheldDecl hheldLast rfl rfl hname⟩

theorem states_of_key_eq (hname : decl.name = last.name) (hkey : batch.key decl entry = batch.key last entry)
    (hdecl : decl.Readable) (hlast : last.Readable) (hdeclared : (batch.resolver s).declared? decl.name = some last)
    (hlayout : (batch.resolver s).LaysOut decl.name layout) :
    ∃ own, (batch.resolver s).HasLayout decl own ∧ Resolver.States layout decl own := by
  obtain ⟨last', depth, hlast', hplace⟩ := hlayout.exists_placeBy?
  obtain rfl : last' = last := Option.some.inj (hlast'.symm.trans hdeclared)
  rw [Resolver.extentAt?, ← placeBy?_eq_of_key_eq hkey hdecl hlast] at hplace
  exact Resolver.states_of_placeBy? hplace

end StructBatch

/-- **Which layout a committed struct carries.** In every session that can be reached, what a batch commits for a
declaration is written with the layout of the last declaration of its name, and stays when the call fails. The stored
texts state its numbers. This is the declaration's own layout exactly when the two have the same layout and their fields
are called alike. So it is when no later declaration of the batch has the name, and when the call goes through. -/
theorem Session.Reachable.layout_of_commits {config : Config} {batch : StructBatch} {s : Session}
    {before after : List StructDecl} {decl : StructDecl} {entry : TypeMapping} {rendering : Rendering}
    (hs : s.Reachable config) (h : batch.Commits s before decl after entry rendering) :
    ∃ last layout body, (batch.resolver s).declared? decl.name = some last ∧ last ∈ decl :: after ∧
      rendering = StructBatch.written decl entry layout body ∧
      (batch.render s).1.renderings.get? (batch.key decl entry) = some rendering ∧
      (batch.render s).1.proxy? decl.name = some (StructBatch.proxyOf decl entry layout) ∧
      (batch.render s).1.StatesLayout (batch.key decl entry) (StructBatch.describe decl entry layout) body
        layout.toExtent (body.fields.map (·.offset)) layout.offsets ∧
      (StructBatch.StatesOwn (batch.resolver s) decl layout body → ∃ own, (batch.resolver s).HasLayout decl own ∧
        (batch.render s).1.StatesLayout (batch.key decl entry) (StructBatch.describe decl entry layout) body
          own.toExtent own.offsets ((decl.fields.map (·.name)).zip own.offsets)) ∧
      (∃ own, (batch.resolver s).HasLayout last own ∧ Resolver.States layout last own) ∧
      (StructBatch.StatesOwn (batch.resolver s) decl layout body ↔
        decl.fields.map (·.name) = last.fields.map (·.name) ∧
        ∃ own, (batch.resolver s).HasLayout decl own ∧ (batch.resolver s).HasLayout last own) ∧
      ((∀ other ∈ after, other.name ≠ decl.name) → StructBatch.StatesOwn (batch.resolver s) decl layout body) ∧
      ((∃ module, (batch.render s).2 = .ok module) → (∀ other ∈ batch.structs, other.Readable) →
        StructBatch.StatesOwn (batch.resolver s) decl layout body) := by
  obtain ⟨layout, body, hlayout, hbody, rfl⟩ := h.exists_written
  obtain ⟨last, own, hdeclared, hlast, hstates⟩ := hlayout.states
  have hmem := StructBatch.mem_of_declared? h.split hdeclared
  obtain ⟨hlastMem, hname⟩ := Resolver.mem_of_declared? hdeclared
  have hdecl : decl ∈ batch.structs := by simp [h.split]
  have hstored := ((Session.Reachable.structs batch hs).coherent.holds _ _ h.kept).statesLayout
  refine ⟨last, layout, body, hdeclared, hmem, rfl, h.kept, ?_, hstored, fun hown => hown.statesLayout hstored,
    ⟨own, hlast, hstates⟩, ?_, ?_, ?_⟩
  · exact hs.registered_of_commits h rfl
  · exact (StructBatch.statesOwn_iff hbody).trans (StructBatch.exists_states_iff hlast hstates)
  · intro hothers
    rcases List.mem_cons.mp hmem with rfl | hlater
    · exact (StructBatch.statesOwn_iff hbody).mpr ⟨own, hlast, hstates⟩
    · exact absurd hname (hothers last hlater)
  · rintro ⟨module, hok⟩ hreadable
    obtain ⟨entry', hkey⟩ := StructBatch.key_eq_of_render hs hok hdecl hlastMem hname.symm
    refine (StructBatch.statesOwn_iff hbody).mpr ?_
    exact StructBatch.states_of_key_eq hname.symm hkey (hreadable decl hdecl) (hreadable last hlastMem)
      hdeclared hlayout

/-! ### A batch that goes through, and one that declares a struct twice -/

namespace StructBatch.Sample

def foo : StructDecl where
  name := "Foo"
  fields := [⟨"x", .ofPrimitive (.integral .i32)⟩]

def wideFoo : StructDecl where
  name := "Foo"
  fields := [⟨"x", .ofPrimitive (.integral .i32)⟩, ⟨"y", .ofPrimitive (.integral .i32)⟩]

def fooEntry : TypeMapping where
  header := "foo.h"

def twice : StructBatch where
  structs := [foo, wideFoo]
  mapping := Table.ofList [("Foo", fooEntry)]

def wideLayout : StructLayout where
  size := 8
  alignment := 4
  name := "Foo"
  fields := [⟨⟨4, 4⟩, "x", "int", 0⟩, ⟨⟨4, 4⟩, "y", "int", 4⟩]

def fooBody : ProxyBody :=
  .fieldwise [⟨"x", "x", .primitive (.integral .i32), 0⟩]

end StructBatch.Sample

namespace Session

open StructBatch.Sample

/-- A struct of a batch that goes through. -/
theorem layout_of_commits_scene :
    Reachable {} (Sample.shapes.render {}).1 ∧
    (∃ module, (Sample.scenes.render (Sample.shapes.render {}).1).2 = .ok module) ∧
    (∀ decl ∈ Sample.scenes.structs, decl.Readable) ∧
    ∃ decl entry rendering layout body,
      Sample.scenes.Commits (Sample.shapes.render {}).1 [] decl Sample.scenes.structs.tail entry rendering ∧
      rendering = StructBatch.written decl entry layout body ∧
      StructBatch.StatesOwn (Sample.scenes.resolver (Sample.shapes.render {}).1) decl layout body ∧
      ∃ own, (Sample.scenes.resolver (Sample.shapes.render {}).1).HasLayout decl own ∧
        Sample.drawn.StatesLayout (Sample.scenes.key decl entry) (StructBatch.describe decl entry layout) body
          own.toExtent own.offsets ((decl.fields.map (·.name)).zip own.offsets) := by
  have hs : Reachable {} (Sample.shapes.render {}).1 := .structs _ .new
  have hok : (Sample.scenes.render (Sample.shapes.render {}).1).2.toOption.isSome := by decide +kernel
  have hmodule := exists_of_isSome_toOption hok
  have hreadable : ∀ decl ∈ Sample.scenes.structs, decl.Readable := by
    have hread : ∀ decl ∈ Sample.scenes.structs, ∀ field ∈ decl.fields,
        CType.ofSpelling field.type.spell = .ok field.type := by decide +kernel
    exact fun decl hmem field hfield => (CType.readable_of_ofChars (hread decl hmem field hfield)).1
  obtain ⟨rendering, hcommits⟩ : ∃ rendering, Sample.scenes.Commits (Sample.shapes.render {}).1 []
      Sample.scenes.structs.head! Sample.scenes.structs.tail { header := "s.h" } rendering :=
    StructBatch.exists_commits rfl (by decide +kernel) (by decide +kernel) (by decide +kernel) (by decide +kernel)
  obtain ⟨-, layout, body, -, -, hwritten, -, -, -, htexts, -, -, -, hown⟩ := hs.layout_of_commits hcommits
  have hstates := hown hmodule hreadable
  exact ⟨hs, hmodule, hreadable, _, _, rendering, layout, body, hcommits, hwritten, hstates, htexts hstates⟩

/-- Of a struct that is declared twice, the first declaration is committed with the layout of the second one, and
stays when the second one is refused. -/
theorem not_statesOwn_twice :
    Reachable {} {} ∧ (∃ rendering, twice.Commits {} [] foo [wideFoo] fooEntry rendering ∧
      ∀ layout body, rendering = StructBatch.written foo fooEntry layout body →
        ¬ StructBatch.StatesOwn (twice.resolver {}) foo layout body) ∧
    (twice.resolver {}).HasLayout foo ⟨⟨4, 4⟩, [0]⟩ ∧
    (twice.render {}).2 = .error (.nameCollision "Foo" "Foo" "Foo") ∧
    ((twice.render {}).1.proxy? "Foo").map (·.toExtent) = some ⟨8, 4⟩ ∧
    (twice.render {}).1.StatesLayout (twice.key foo fooEntry) (StructBatch.describe foo fooEntry wideLayout) fooBody
      ⟨8, 4⟩ [0] [("x", 0), ("y", 4)] := by
  have hlayout : (twice.resolver {}).HasLayout foo ⟨⟨4, 4⟩, [0]⟩ := ⟨0, by decide +kernel⟩
  have hproxy : ((twice.render {}).1.proxy? "Foo").map (·.toExtent) = some ⟨8, 4⟩ := by decide +kernel
  obtain ⟨rendering, hcommits⟩ : ∃ rendering, twice.Commits {} [] foo [wideFoo] fooEntry rendering :=
    StructBatch.exists_commits rfl (by decide +kernel) (by decide +kernel) (by decide +kernel) (by decide +kernel)
  have hheld : (twice.render {}).1.renderings.get? (twice.key foo fooEntry) =
      some (StructBatch.written foo fooEntry wideLayout fooBody) := by decide +kernel
  have hstored := ((Reachable.structs twice .new).coherent.holds _ _ hheld).statesLayout
  refine ⟨.new, ⟨rendering, hcommits, ?_⟩, hlayout, by decide +kernel, hproxy, hstored⟩
  rintro layout body rfl ⟨own, hown, -, hstates, -⟩
  obtain rfl := hown.unique hlayout
  have hregistered := Reachable.new.registered_of_commits hcommits rfl
  have hextent : layout.toExtent = ⟨8, 4⟩ := by
    rw [show foo.name = "Foo" from rfl] at hregistered
    simpa [hregistered] using hproxy
  cases hextent.symm.trans hstates.extent

end Session

end HostBinding
