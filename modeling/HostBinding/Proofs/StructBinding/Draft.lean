import HostBinding.Proofs.Session.Run
import HostBinding.Proofs.Text.Cut

/-!
# What the text of a struct depends on

Two struct declarations with one key may still render differently: the key does not tell a missing comment
from an empty one, and it holds no layouts and no host types. A draft is what the key leaves open. The texts
of two declarations with one key are equal exactly when their drafts are.
-/

namespace HostBinding

open Text

def HostType.asWritten (type : HostType) : HostType :=
  .proxy type.spell

@[simp]
theorem HostType.spell_asWritten (type : HostType) : type.asWritten.spell = type.spell :=
  rfl

@[simp]
theorem HostType.mentionsErased_asWritten (type : HostType) :
    type.asWritten.mentionsErased = type.mentionsErased :=
  rfl

namespace StructBinding

open ProxyText

def ProxyField.asWritten (field : ProxyField) : ProxyField :=
  { field with type := field.type.asWritten }

/-- The body of a proxy with every host type reduced to its spelling. -/
def ProxyBody.asWritten : ProxyBody → ProxyBody
  | .bytes => .bytes
  | .fieldwise fields => .fieldwise (fields.map (·.asWritten))

/-- What the text of a struct is written from, beside the parts of its key. -/
structure Draft where
  comment : Option String
  extent : Extent
  /-- The native assertions, which state the offsets of all native fields. -/
  assertions : String
  body : ProxyBody
deriving DecidableEq

def draft (decl : StructDecl) (layout : StructLayout) (body : ProxyBody) : Draft where
  comment := decl.comment
  extent := layout.toExtent
  assertions := nativeAssertions decl.name layout
  body := body.asWritten

/-- A field whose identifier is made from a native name and whose type can be read back. -/
def ProxyField.Readable (field : ProxyField) : Prop :=
  field.ident = escapeKeyword field.nativeName ∧ Within isTypeChar field.type.spell

variable {fields fields' : List ProxyField} {names : List String} {r s : String}

theorem reserved_ne (field : ProxyField) : "    _reserved: u8," ++ r ≠ memberLine field ++ s := by
  intro h
  have hfifth := congrArg (·.toList[4]?) h
  simp [memberLine] at hfifth

theorem members_inj (hreadable : ∀ field ∈ fields, field.Readable)
    (hreadable' : ∀ field ∈ fields', field.Readable)
    (hnames : fields.map (·.nativeName) <+: names) (hnames' : fields'.map (·.nativeName) <+: names)
    (h : unlines (fields.map memberLine) ++ ("\x7d" ++ r) =
      unlines (fields'.map memberLine) ++ ("\x7d" ++ s)) :
    List.Forall₂ (fun field field' => field.nativeName = field'.nativeName ∧
      field.ident = field'.ident ∧ field.type.spell = field'.type.spell) fields fields' ∧ r = s := by
  induction fields generalizing fields' names with
  | nil =>
    cases fields' with
    | nil => exact ⟨.nil, by simpa [unlines, String.append_right_inj] using h⟩
    | cons field' rest' =>
      exact absurd (congrArg (·.toList.head?) h) (by simp [memberLine, unlines])
  | cons field rest ih =>
    cases fields' with
    | nil => exact absurd (congrArg (·.toList.head?) h) (by simp [memberLine, unlines])
    | cons field' rest' =>
      cases names with
      | nil => simp at hnames
      | cons name names =>
        rw [List.map_cons, List.cons_prefix_cons] at hnames hnames'
        have hname : field.nativeName = field'.nativeName := hnames.1.trans hnames'.1.symm
        obtain ⟨hident, htype⟩ := hreadable field List.mem_cons_self
        obtain ⟨hident', htype'⟩ := hreadable' field' List.mem_cons_self
        have hsame : field.ident = field'.ident := by rw [hident, hident', hname]
        simp only [memberLine, List.map_cons, unlines_cons, ProxyText.typed, hsame,
          String.append_assoc, String.append_right_inj] at h
        have hcomma : StartsOutside isTypeChar "," := ⟨',', [], rfl, by decide⟩
        obtain ⟨hspell, hrest⟩ := cut htype htype' (hcomma.append _) (hcomma.append _) h
        simp only [String.append_right_inj] at hrest
        obtain ⟨hfields, hend⟩ := ih (fun f hf => hreadable f (List.mem_cons_of_mem _ hf))
          (fun f hf => hreadable' f (List.mem_cons_of_mem _ hf)) hnames.2 hnames'.2 hrest
        exact ⟨.cons ⟨hname, hsame, hspell⟩ hfields, hend⟩

theorem offsets_inj
    (hnames : List.Forall₂ (fun field field' : ProxyField => field.nativeName = field'.nativeName)
      fields fields')
    (h : ", ".intercalate (fields.map offsetEntry) ++ ("];" ++ r) =
      ", ".intercalate (fields'.map offsetEntry) ++ ("];" ++ s)) :
    List.Forall₂ (fun field field' => field.offset = field'.offset) fields fields' := by
  have hclose : StartsOutside Char.isDigit ")" := ⟨')', [], rfl, by decide⟩
  induction hnames with
  | nil => exact .nil
  | @cons field field' rest rest' hname hrest ih =>
    have hentry : ∀ t t' : String, offsetEntry field ++ t = offsetEntry field' ++ t' →
        field.offset = field'.offset ∧ t = t' := by
      intro t t' heq
      simp only [offsetEntry, hname, String.append_assoc, String.append_right_inj] at heq
      obtain ⟨hoffset, heq⟩ := cut_toString (hclose.append t) (hclose.append t') heq
      exact ⟨hoffset, (String.append_right_inj _).mp heq⟩
    cases hrest with
    | nil =>
      simp only [List.map_cons, List.map_nil, String.intercalate_singleton] at h
      exact .cons (hentry _ _ h).1 .nil
    | cons hsecond hrest =>
      simp only [List.map_cons, String.intercalate_cons_cons, String.append_assoc] at h ih
      obtain ⟨hoffset, h⟩ := hentry _ _ h
      exact .cons hoffset (ih ((String.append_right_inj _).mp h))

theorem map_asWritten_eq_of_forall₂
    (h : List.Forall₂ (fun field field' : ProxyField => field.nativeName = field'.nativeName ∧
      field.ident = field'.ident ∧ field.type.spell = field'.type.spell) fields fields')
    (hoffsets : List.Forall₂ (fun field field' : ProxyField => field.offset = field'.offset)
      fields fields') :
    fields.map (·.asWritten) = fields'.map (·.asWritten) := by
  induction h with
  | nil => rfl
  | @cons field field' rest rest' hfield hrest ih =>
    obtain ⟨hname, hident, htype⟩ := hfield
    obtain ⟨hoffset, hoffsets⟩ := List.forall₂_cons.mp hoffsets
    rw [List.map_cons, List.map_cons, ih hoffsets]
    simp [ProxyField.asWritten, HostType.asWritten, hname, hident, htype, hoffset]

/-- The proxy text shows every field of the body. -/
theorem fieldwise_inj {p p' : ProxyText} (hreadable : ∀ field ∈ fields, field.Readable)
    (hreadable' : ∀ field ∈ fields', field.Readable)
    (hnames : fields.map (·.nativeName) <+: names) (hnames' : fields'.map (·.nativeName) <+: names)
    (hdocs : p.docs "Proxy" = p'.docs "Proxy") (hhost : p.hostName = p'.hostName)
    (h : p.fieldwise fields = p'.fieldwise fields') :
    fields.map (·.asWritten) = fields'.map (·.asWritten) := by
  simp only [ProxyText.fieldwise, List.append_assoc, List.cons_append, List.nil_append,
    unlines_append, unlines_cons, hdocs, hhost, String.append_assoc, String.append_right_inj] at h
  by_cases hempty : fields = [] <;> by_cases hempty' : fields' = [] <;>
    simp only [List.isEmpty_iff, hempty, hempty', if_true, if_false] at h
  · rw [hempty, hempty']
  · obtain ⟨field', rest', rfl⟩ := List.exists_cons_of_ne_nil hempty'
    simp only [List.map_cons, unlines_cons, String.append_assoc] at h
    exact absurd h (reserved_ne field')
  · obtain ⟨field, rest, rfl⟩ := List.exists_cons_of_ne_nil hempty
    simp only [List.map_cons, unlines_cons, String.append_assoc] at h
    exact absurd h.symm (reserved_ne field)
  · obtain ⟨hfields, hrest⟩ := members_inj hreadable hreadable' hnames hnames' h
    simp only [hfields.length_eq, String.append_right_inj] at hrest
    exact map_asWritten_eq_of_forall₂ hfields (offsets_inj (hfields.imp fun _ _ h => h.1) hrest)

theorem head?_unlines {c : Char} {line : String} (hline : line.toList.head? = some c)
    (rest : List String) (after : String) : (unlines (line :: rest) ++ after).toList.head? = some c := by
  rw [unlines_cons, String.append_assoc, String.toList_append, List.head?_append, hline]
  rfl

/-- The documentation shows whether there is a comment, also when it is empty. -/
theorem comment_inj {p p' : ProxyText} {what : String} (hname : p.nativeName = p'.nativeName)
    (hheader : p.header = p'.header) (hcomment : p.comment.getD "" = p'.comment.getD "")
    (hr : r.toList.head? = some '#') (hs : s.toList.head? = some '#')
    (h : unlines (p.docs what) ++ r = unlines (p'.docs what) ++ s) : p.comment = p'.comment := by
  cases hp : p.comment with
  | none =>
    cases hp' : p'.comment with
    | none => rfl
    | some comment' =>
      simp only [docs, hp, hp', hname, hheader, unlines_cons, String.append_assoc,
        String.append_right_inj] at h
      exact absurd (congrArg (·.toList.head?) h) (by simp [unlines, hr])
  | some comment =>
    cases hp' : p'.comment with
    | none =>
      simp only [docs, hp, hp', hname, hheader, unlines_cons, String.append_assoc,
        String.append_right_inj] at h
      exact absurd (congrArg (·.toList.head?) h) (by simp [unlines, hs])
    | some comment' => simpa [hp, hp'] using hcomment

theorem extent_inj {name : String} {layout layout' : StructLayout}
    (h : nativeAssertions name layout = nativeAssertions name layout') :
    layout.toExtent = layout'.toExtent := by
  have hcomma : StartsOutside Char.isDigit ", \"" := ⟨',', [' ', '"'], rfl, by decide⟩
  simp only [nativeAssertions, List.cons_append, List.nil_append, unlines_cons,
    String.append_assoc, String.append_right_inj] at h
  obtain ⟨hsize, h⟩ := cut_toString (hcomma.append _) (hcomma.append _) h
  simp only [String.append_right_inj] at h
  obtain ⟨halignment, -⟩ := cut_toString (hcomma.append _) (hcomma.append _) h
  obtain ⟨⟨size, alignment⟩, name, fields⟩ := layout
  obtain ⟨⟨size', alignment'⟩, name', fields'⟩ := layout'
  simp_all

/-- The body of a proxy of a given model whose fields are named after native ones. -/
inductive ProxyBody.Fits (names : List String) : ProxyModel → ProxyBody → Prop
  | bytes : Fits names .bytes .bytes
  | fieldwise (fields : List ProxyField) : (∀ field ∈ fields, field.Readable) →
    fields.map (·.nativeName) <+: names → Fits names .fieldwise (.fieldwise fields)

theorem write_inj {p p' : ProxyText} {model : ProxyModel} {body body' : ProxyBody}
    (hname : p.nativeName = p'.nativeName) (hhost : p.hostName = p'.hostName)
    (hheader : p.header = p'.header) (hcomment : p.comment.getD "" = p'.comment.getD "")
    (hbody : body.Fits names model) (hbody' : body'.Fits names model)
    (h : p.write body = p'.write body') :
    p.comment = p'.comment ∧ body.asWritten = body'.asWritten := by
  cases hbody with
  | bytes =>
    cases hbody' with
    | bytes =>
      simp only [write, bytes, List.append_assoc, unlines_append] at h
      refine ⟨comment_inj hname hheader hcomment ?_ ?_ h, rfl⟩ <;>
        exact head?_unlines (by simp) _ _
  | fieldwise fields hreadable hnames =>
    cases hbody' with
    | fieldwise fields' hreadable' hnames' =>
      have hdocs : p.comment = p'.comment := by
        simp only [write, fieldwise, List.append_assoc, unlines_append] at h
        exact comment_inj hname hheader hcomment (head?_unlines (by simp) _ _)
          (head?_unlines (by simp) _ _) h
      have hsame : p.docs "Proxy" = p'.docs "Proxy" := by
        rw [docs, docs, hname, hheader, hdocs]
      exact ⟨hdocs, congrArg ProxyBody.fieldwise
        (fieldwise_inj hreadable hreadable' hnames hnames' hsame hhost h)⟩

theorem write_asWritten (p : ProxyText) (body : ProxyBody) : p.write body.asWritten = p.write body := by
  cases body with
  | bytes => rfl
  | fieldwise fields =>
    simp only [ProxyBody.asWritten, write, fieldwise, assertions, typed, memberLine, offsetEntry,
      ProxyField.asWritten, List.map_map, Function.comp_def, HostType.spell_asWritten,
      List.isEmpty_map, List.length_map]
    rfl

theorem write_congr {p p' : ProxyText} (hname : p.nativeName = p'.nativeName)
    (hhost : p.hostName = p'.hostName) (hheader : p.header = p'.header)
    (hcomment : p.comment = p'.comment) (hextent : p.layout.toExtent = p'.layout.toExtent)
    (body : ProxyBody) : p.write body = p'.write body := by
  obtain ⟨nativeName, hostName, header, comment, ⟨extent, name, fields⟩⟩ := p
  obtain ⟨nativeName', hostName', header', comment', ⟨extent', name', fields'⟩⟩ := p'
  subst hname hhost hheader hcomment hextent
  rfl

theorem importLines_asWritten (body : ProxyBody) :
    StructBatch.importLines body.asWritten = StructBatch.importLines body := by
  cases body with
  | bytes => rfl
  | fieldwise fields =>
    simp only [ProxyBody.asWritten, StructBatch.importLines, List.any_map, Function.comp_def,
      ProxyField.asWritten, HostType.mentionsErased_asWritten]

end StructBinding

namespace StructBatch

open StructBinding

variable {batch batch' : StructBatch} {decl decl' : StructDecl} {entry entry' : TypeMapping}
  {layout layout' : StructLayout} {body body' : ProxyBody}

/-- A batch takes the name of a registered proxy, and a name of its own otherwise. -/
theorem hostName?_eq_or (batch : StructBatch) (s : Session) (name : String) :
    batch.hostName? s name = (s.hostName? name).or
      (((batch.mapping.get? name).map fun entry => sanitize (entry.hostNameFor name)).or
        (if batch.structs.any (·.name = name) then some (sanitize name) else none)) := by
  simp only [hostName?, Option.orElse_eq_orElse, Option.orElse_eq_or]

theorem within_hostName? {session : Session}
    (hnames : ∀ name proxy, session.proxy? name = some proxy → Within isWordChar proxy.hostName)
    (name hostName : String) (h : batch.hostName? session name = some hostName) :
    Within isTypeChar hostName := by
  apply Within.mono _ fun _ => isTypeChar_of_isWordChar
  rw [hostName?_eq_or, Option.or_eq_some_iff, Option.or_eq_some_iff] at h
  rcases h with hregistered | ⟨-, hentry | ⟨-, hdeclared⟩⟩
  · obtain ⟨proxy, hproxy, rfl⟩ := Option.map_eq_some_iff.mp hregistered
    exact hnames name proxy hproxy
  · obtain ⟨entry, -, rfl⟩ := Option.map_eq_some_iff.mp hentry
    exact within_sanitize _
  · obtain ⟨-, heq⟩ := Option.ite_none_right_eq_some.mp hdeclared
    exact Option.some.inj heq ▸ within_sanitize name

theorem map_fst_zip_isPrefix {α β : Type} (xs : List α) (ys : List β) :
    (xs.zip ys).map Prod.fst <+: xs := by
  induction xs generalizing ys with
  | nil => simp
  | cons x xs ih =>
    cases ys with
    | nil => simp
    | cons y ys => simpa using ih ys

theorem proxyField_eq_ok_iff {session : Session} {structName : String} {source : FieldDecl}
    {offset : Nat} {field : ProxyField} :
    batch.proxyField session structName source offset = .ok field ↔
      ∃ type, source.type.host? (batch.hostName? session) = some type ∧
        field = { nativeName := source.name, ident := escapeKeyword source.name,
                  type := type, offset := offset } := by
  cases hhost : source.type.host? (batch.hostName? session) <;>
    simp [proxyField, hhost, eq_comm (a := field)]

theorem fits_of_body {session : Session} {model : ProxyModel}
    (hnames : ∀ name proxy, session.proxy? name = some proxy → Within isWordChar proxy.hostName)
    (h : batch.body session decl model layout = .ok body) :
    body.Fits (decl.fields.map (·.name)) model := by
  cases model with
  | bytes =>
    cases h
    exact .bytes
  | fieldwise =>
    obtain ⟨fields, hfields, rfl⟩ := map_eq_ok_iff.mp h
    have hmade := mapM_eq_ok_iff.mp hfields
    have hnamed : ((decl.fields.zip layout.fields).map Prod.fst).map (·.name) = fields.map (·.nativeName) := by
      rw [List.map_map]
      apply map_eq_map_of_forall₂ hmade
      intro source field hok
      obtain ⟨type, -, rfl⟩ := proxyField_eq_ok_iff.mp hok
      rfl
    refine .fieldwise fields (forall_mem_of_forall₂ hmade fun source field hok => ?_) ?_
    · obtain ⟨type, htype, rfl⟩ := proxyField_eq_ok_iff.mp hok
      exact ⟨rfl, CType.within_spell_of_host? (within_hostName? hnames) htype⟩
    · rw [← hnamed]
      exact (map_fst_zip_isPrefix decl.fields layout.fields).map (·.name)

theorem forall₂_of_flatMap_pair_eq {α : Type} {xs ys : List α} {f g : α → String}
    (h : (xs.flatMap fun x => [f x, g x]) = ys.flatMap fun y => [f y, g y]) :
    List.Forall₂ (fun x y => f x = f y ∧ g x = g y) xs ys := by
  induction xs generalizing ys with
  | nil =>
    cases ys with
    | nil => exact .nil
    | cons y ys => simp at h
  | cons x xs ih =>
    cases ys with
    | nil => simp at h
    | cons y ys =>
      simp only [List.flatMap_cons, List.cons_append, List.nil_append, List.cons.injEq] at h
      exact .cons ⟨h.1, h.2.1⟩ (ih h.2.2)

structure SameKey (decl decl' : StructDecl) (entry entry' : TypeMapping) : Prop where
  name : decl.name = decl'.name
  header : entry.header = entry'.header
  fieldNames : decl.fields.map (·.name) = decl'.fields.map (·.name)
  comment : decl.comment.getD "" = decl'.comment.getD ""
  hostName : entry.hostNameFor decl.name = entry'.hostNameFor decl'.name
  model : entry.model = entry'.model

theorem tag_inj {model model' : ProxyModel} (h : model.tag = model'.tag) : model = model' := by
  cases model <;> cases model' <;> first | rfl | exact absurd h (by decide)

theorem fields_of_key_eq (h : batch.key decl entry = batch'.key decl' entry') :
    List.Forall₂ (fun field field' : FieldDecl => field.name = field'.name ∧
      field.type.spell = field'.type.spell) decl.fields decl'.fields := by
  simp only [key, DeclKey.mk.injEq, true_and, List.cons_append, List.nil_append,
    List.cons.injEq] at h
  obtain ⟨-, -, -, -, hparts⟩ := h
  exact forall₂_of_flatMap_pair_eq (List.append_inj' hparts rfl).1

theorem sameKey_of_key_eq (h : batch.key decl entry = batch'.key decl' entry') :
    SameKey decl decl' entry entry' := by
  have hfields := fields_of_key_eq h
  simp only [key, DeclKey.mk.injEq, true_and, List.cons_append, List.nil_append,
    List.cons.injEq] at h
  obtain ⟨hname, hheader, -, -, hparts⟩ := h
  have htail := (List.append_inj' hparts rfl).2
  simp only [List.cons.injEq, and_true] at htail
  exact ⟨hname, hheader, map_eq_map_of_forall₂ hfields fun _ _ h => h.1, htail.1, htail.2.1,
    tag_inj htail.2.2⟩

/-- **Two structs with one key have the same texts exactly when their drafts are the same.** -/
theorem written_eq_iff (hkey : SameKey decl decl' entry entry')
    (hbody : body.Fits (decl.fields.map (·.name)) entry.model)
    (hbody' : body'.Fits (decl'.fields.map (·.name)) entry'.model) :
    written decl entry layout body = written decl' entry' layout' body' ↔
      draft decl layout body = draft decl' layout' body' := by
  have hhost (l l' : StructLayout) :
      (describe decl entry l).hostName = (describe decl' entry' l').hostName := by
    rw [describe, describe, hkey.hostName]
  constructor
  · intro h
    have howned := congrArg Rendering.owned h
    simp only [owned_written, List.cons.injEq, Fragment.mk.injEq, and_true] at howned
    obtain ⟨⟨-, htext⟩, -, hshim⟩ := howned
    rw [hkey.fieldNames, hkey.model] at hbody
    obtain ⟨hcomment, hbodies⟩ := write_inj hkey.name (hhost layout layout') hkey.header hkey.comment
      hbody hbody' htext
    rw [draft, draft, Draft.mk.injEq]
    exact ⟨hcomment, extent_inj (hkey.name ▸ hshim), hshim, hbodies⟩
  · intro h
    simp only [draft, Draft.mk.injEq] at h
    obtain ⟨hcomment, hextent, hshim, hbodies⟩ := h
    rw [hkey.name] at hshim
    have htext : (describe decl entry layout).write body = (describe decl' entry' layout').write body' := by
      rw [← write_asWritten, hbodies, write_asWritten]
      exact write_congr hkey.name (hhost layout layout') hkey.header hcomment hextent body'
    have himports : importLines body = importLines body' := by
      rw [← importLines_asWritten, hbodies, importLines_asWritten]
    simp only [written, htext, himports, hhost layout layout', hshim, hextent, hkey.name, hkey.header,
      hkey.model]

end StructBatch

end HostBinding
