import HostBinding.Proofs.CType.RoundTrip
import HostBinding.Proofs.FirstBy
import HostBinding.Proofs.Prelude
import HostBinding.Serialized.Config
import HostBinding.Serialized.Declaration
import HostBinding.Serialized.Mapping

/-!
# Serialized values are read back

A record is written with all of its keys, in their order. Reading it is then the same as reading the row of its values,
since no key is skipped or given twice. What each key enters is read back from what was written under it: absent values
from nothing, lists item by item, and types from their spelling. So every serialized value is read back as it was, as
long as the types in it are printable.
-/

namespace HostBinding

theorem Table.ofList_entries {κ ν : Type} [DecidableEq κ] (t : Table κ ν) : ofList t.entries = t := by
  have hfold (pairs : List (κ × ν)) (s : Table κ ν) (hnodup : ((s.entries ++ pairs).map Prod.fst).Nodup) :
      (pairs.foldl (fun s pair => s.insert pair.1 pair.2) s).entries = s.entries ++ pairs := by
    induction pairs generalizing s with
    | nil => simp
    | cons pair rest ih =>
      have hnew : pair.1 ∉ s.keys := by
        rw [List.map_append, List.map_cons] at hnodup
        exact fun hmem => (List.nodup_append.mp hnodup).2.2 _ hmem _ List.mem_cons_self rfl
      have hinsert : (s.insert pair.1 pair.2).entries = s.entries ++ [pair] := entries_insert_of_notMem hnew
      rw [List.foldl_cons, ih, hinsert, List.append_assoc, List.singleton_append]
      rwa [hinsert, List.append_assoc, List.singleton_append]
  exact ext_entries (hfold t.entries ∅ t.nodup_keys)

/-! ### Values, lists and records -/

namespace Document

variable {α δ : Type} {read : Document → Decoded α} {encode : α → Document}

theorem toOption_ofOption {value : Option α} (hpresent : ∀ a, (encode a).isAbsent = false)
    (hread : ∀ a, read (encode a) = .ok a) : (ofOption encode value).toOption read = .ok value := by
  cases value with
  | none => rfl
  | some a =>
    rw [ofOption, toOption, hpresent, hread]
    rfl

@[simp]
theorem toOption_ofOption_text (value : Option String) : (ofOption .text value).toOption toText = .ok value :=
  toOption_ofOption (fun _ => rfl) fun _ => rfl

theorem toList_map {values : List α} (h : ∀ a ∈ values, read (encode a) = .ok a) :
    (Document.list (values.map encode)).toList read = .ok values := by
  rw [toList, mapM_eq_ok_iff, List.forall₂_map_left_iff, List.forall₂_same]
  exact h

@[simp]
theorem toWord64_ofWord64 (word : UInt64) : (ofWord64 word).toWord64 = .ok word := by
  have hword : (ofWord64 word).toWord64 = ofOption? (Text.word64? word.toNat) := rfl
  rw [hword, Text.word64?_toNat]
  rfl

theorem toTagged_text {ofTag? : String → Option α} {tag : String} {value : α} (h : ofTag? tag = some value) :
    (Document.text tag).toTagged ofTag? = .ok value := by
  rw [toTagged, h]
  rfl

theorem toTable_record (table : Table String α) (h : ∀ a, read (encode a) = .ok a) :
    (record (table.mapValues encode).entries).toTable read = .ok table := by
  rw [record, toTable, bind_eq_ok_iff]
  refine ⟨table.entries, ?_, congrArg Except.ok table.ofList_entries⟩
  rw [mapM_eq_ok_iff, Table.mapValues, List.map_map, List.forall₂_map_left_iff, List.forall₂_same]
  intro entry _
  simp [toText, h, bind, Except.bind, pure, Except.pure]

variable {all keys : List (Key δ)} {entries : List (String × Document)} {seen : List String} {draft : δ}

theorem readEntries_cons {key : Key δ} {name : String} {value : Document} {rest : List (Document × Document)}
    (hfound : all.find? (·.name = name) = some key) (hunseen : name ∉ seen) :
    readEntries all seen ((.text name, value) :: rest) draft =
      key.enter value draft >>= readEntries all (name :: seen) rest := by
  rw [readEntries]
  simp [toText, bind, Except.bind, hfound, hunseen]

theorem readEntries_eq_readItems (hall : ∀ key ∈ keys, all.find? (·.name = key.name) = some key)
    (hnodup : (keys.map (·.name)).Nodup) (hseen : ∀ name ∈ seen, name ∉ keys.map (·.name))
    (hnames : keys.map (·.name) = entries.map Prod.fst) :
    readEntries all seen (entries.map fun entry => (.text entry.1, entry.2)) draft =
      readItems keys (entries.map Prod.snd) draft := by
  induction keys generalizing entries seen draft with
  | nil =>
    rw [List.map_eq_nil_iff.mp hnames.symm]
    simp [readEntries, readItems]
  | cons key rest ih =>
    cases entries with
    | nil => cases hnames
    | cons entry others =>
      rw [List.map_cons, List.map_cons, List.cons.injEq] at hnames
      obtain ⟨hname, hnames⟩ := hnames
      rw [List.map_cons, List.nodup_cons] at hnodup
      obtain ⟨hfound, hall⟩ := List.forall_mem_cons.mp hall
      rw [hname] at hfound
      have hunseen : entry.1 ∉ seen := fun hmem => hseen entry.1 hmem (hname ▸ List.mem_cons_self)
      have hlater : ∀ name ∈ entry.1 :: seen, name ∉ rest.map (·.name) := by
        intro name hmem
        rcases List.mem_cons.mp hmem with rfl | hmem
        · exact hname ▸ hnodup.1
        · exact fun hrest => hseen name hmem (List.mem_cons_of_mem _ hrest)
      rw [List.map_cons, readEntries_cons hfound hunseen, List.map_cons, readItems]
      exact bind_congr fun _ => ih hall hnodup.2 hlater hnames

/-- A record with all of its keys in order is read like the row of its values. -/
theorem readRecord_record (hnodup : (keys.map (·.name)).Nodup) (hnames : keys.map (·.name) = entries.map Prod.fst) :
    readRecord keys draft (record entries) = readItems keys (entries.map Prod.snd) draft := by
  apply readEntries_eq_readItems _ hnodup _ hnames
  · exact fun key hkey => find?_key_eq hnodup hkey
  · simp

end Document

open Document

/-! ### Types, fields and structs -/

theorem CType.decode_encode {type : CType} (h : type.Printable) : CType.decode type.encode = .ok type := by
  have hread := h.ofSpelling_spell
  rw [encode, decode]
  simp [toText, hread, bind, Except.bind]

theorem FieldDecl.decode_encode {field : FieldDecl} (h : field.type.Printable) :
    FieldDecl.decode field.encode = .ok field := by
  have hrow : readRecord keys {} field.encode = .ok ⟨some field.name, some field.type⟩ := by
    rw [encode, readRecord_record (by decide) rfl]
    simp [keys, readItems, toText, CType.decode_encode h, bind, Except.bind, pure, Except.pure]
  rw [decode, hrow]
  rfl

def StructDecl.Printable (decl : StructDecl) : Prop :=
  ∀ field ∈ decl.fields, field.type.Printable

instance (decl : StructDecl) : Decidable decl.Printable :=
  inferInstanceAs (Decidable (∀ field ∈ decl.fields, field.type.Printable))

theorem StructDecl.decode_encode {decl : StructDecl} (h : decl.Printable) :
    StructDecl.decode decl.encode = .ok decl := by
  have hfields : (Document.list (decl.fields.map FieldDecl.encode)).toList FieldDecl.decode = .ok decl.fields :=
    toList_map fun field hfield => FieldDecl.decode_encode (h field hfield)
  have hrow : readRecord keys {} decl.encode = .ok ⟨some decl.name, decl.fields, decl.comment⟩ := by
    rw [encode, readRecord_record (by decide) rfl]
    simp [keys, readItems, toText, hfields, bind, Except.bind, pure, Except.pure]
  rw [decode, hrow]
  rfl

/-! ### Functions and declarations -/

theorem Operator.decode_encode (op : Operator) : Operator.decode op.encode = .ok op := by
  have hall : ∀ op ∈ all, ofTag? op.tag = some op := by decide
  exact toTagged_text (hall op op.mem_all)

theorem ParamDecl.decode_encode {param : ParamDecl} (h : param.type.Printable) :
    ParamDecl.decode param.encode = .ok param := by
  have hrow : readRecord keys {} param.encode = .ok ⟨param.name, some param.type⟩ := by
    rw [encode, readRecord_record (by decide) rfl]
    simp [keys, readItems, CType.decode_encode h, bind, Except.bind, pure, Except.pure]
  rw [decode, hrow]
  rfl

structure FunctionDecl.Printable (decl : FunctionDecl) : Prop where
  returnType : decl.returnType.Printable
  params : ∀ param ∈ decl.params, param.type.Printable

instance (decl : FunctionDecl) : Decidable decl.Printable :=
  decidable_of_iff (decl.returnType.Printable ∧ ∀ param ∈ decl.params, param.type.Printable)
    ⟨fun ⟨returnType, params⟩ => ⟨returnType, params⟩, fun h => ⟨h.returnType, h.params⟩⟩

theorem FunctionDecl.decode_encode {decl : FunctionDecl} (h : decl.Printable) :
    FunctionDecl.decode decl.encode = .ok decl := by
  have hparams : (Document.list (decl.params.map ParamDecl.encode)).toList ParamDecl.decode = .ok decl.params :=
    toList_map fun param hparam => ParamDecl.decode_encode (h.params param hparam)
  have hoperator : (ofOption Operator.encode decl.operator).toOption Operator.decode = .ok decl.operator :=
    toOption_ofOption (fun _ => rfl) Operator.decode_encode
  have hrow : readRecord keys {} decl.encode =
      .ok ⟨some decl.name, some decl.returnType, decl.params, decl.operator⟩ := by
    rw [encode, readRecord_record (by decide) rfl]
    simp [keys, readItems, toText, CType.decode_encode h.returnType, hparams, hoperator, bind, Except.bind, pure,
      Except.pure]
  rw [decode, hrow]
  rfl

structure Declarations.Printable (decls : Declarations) : Prop where
  structs : ∀ decl ∈ decls.structs, decl.Printable
  functions : ∀ decl ∈ decls.functions, decl.Printable

theorem Declarations.decode_encode {decls : Declarations} (h : decls.Printable) :
    Declarations.decode decls.encode = .ok decls := by
  have hstructs : (Document.list (decls.structs.map StructDecl.encode)).toList StructDecl.decode = .ok decls.structs :=
    toList_map fun decl hdecl => StructDecl.decode_encode (h.structs decl hdecl)
  have hfunctions : (Document.list (decls.functions.map FunctionDecl.encode)).toList FunctionDecl.decode =
      .ok decls.functions := toList_map fun decl hdecl => FunctionDecl.decode_encode (h.functions decl hdecl)
  have hrow : readRecord keys {} decls.encode =
      .ok ⟨some decls.header, decls.targetArch, decls.headerDigest, decls.structs, decls.functions⟩ := by
    rw [encode, readRecord_record (by decide) rfl]
    simp [keys, readItems, toText, hstructs, hfunctions, bind, Except.bind, pure, Except.pure]
  rw [decode, hrow]
  rfl

/-! ### Mappings, configurations and primitives -/

theorem TypeMapping.decode_encode (entry : TypeMapping) : TypeMapping.decode entry.encode = .ok entry := by
  have hmodel : (Document.text entry.model.tag).toTagged ProxyModel.ofTag? = .ok entry.model :=
    toTagged_text (by cases entry.model <;> decide)
  have hrow : readRecord keys {} entry.encode = .ok ⟨entry.hostName, entry.model, some entry.header⟩ := by
    rw [encode, readRecord_record (by decide) rfl]
    simp [keys, readItems, toText, hmodel, bind, Except.bind, pure, Except.pure]
  rw [decode, hrow]
  rfl

theorem Mapping.decode_encode (mapping : Mapping) : Mapping.decode mapping.encode = .ok mapping :=
  toTable_record mapping TypeMapping.decode_encode

theorem Config.decode_encode (config : Config) : Config.decode config.encode = .ok config := by
  have hlimit : (ofOption ofWord64 config.byValueReturnLimit).toOption toWord64 = .ok config.byValueReturnLimit :=
    toOption_ofOption (fun _ => rfl) toWord64_ofWord64
  have hpolicy : (Document.text config.operatorOverride.tag).toTagged OverridePolicy.ofTag? =
      .ok config.operatorOverride := toTagged_text (by cases config.operatorOverride <;> decide)
  rw [decode, encode, readRecord_record (by decide) rfl]
  simp [keys, readItems, toText, hlimit, hpolicy, bind, Except.bind, pure, Except.pure]

theorem Primitive.decode_encode (kind : Primitive) : Primitive.decode kind.encode = .ok kind := by
  cases kind with
  | bool => rfl
  | integral kind =>
    rw [encode, record, List.map_singleton, decode, toTagged_text kind.ofName?_name]
    rfl
  | floating kind =>
    rw [encode, record, List.map_singleton, decode, toTagged_text kind.ofName?_name]
    rfl

/-- **Serialized values are read back**: every type that is printable, every primitive and every operator, structs,
functions and declarations of such types, mappings and configurations. Lists, tables and absent values come back as they
were, in the same order. -/
theorem decode_encode_of_printable :
    (∀ type : CType, type.Printable → CType.decode type.encode = .ok type) ∧
    (∀ kind : Primitive, Primitive.decode kind.encode = .ok kind) ∧
    (∀ op : Operator, Operator.decode op.encode = .ok op) ∧
    (∀ decl : StructDecl, decl.Printable → StructDecl.decode decl.encode = .ok decl) ∧
    (∀ decl : FunctionDecl, decl.Printable → FunctionDecl.decode decl.encode = .ok decl) ∧
    (∀ decls : Declarations, decls.Printable → Declarations.decode decls.encode = .ok decls) ∧
    (∀ mapping : Mapping, Mapping.decode mapping.encode = .ok mapping) ∧
    ∀ config : Config, Config.decode config.encode = .ok config :=
  ⟨fun _ => CType.decode_encode, Primitive.decode_encode, Operator.decode_encode, fun _ => StructDecl.decode_encode,
    fun _ => FunctionDecl.decode_encode, fun _ => Declarations.decode_encode, Mapping.decode_encode,
    Config.decode_encode⟩

namespace Sample

def sheet : Declarations where
  header := "shapes/scene.h"
  structs := [{ name := "ns::Empty" },
    { name := "Scene", comment := some "null",
      fields := [⟨"cells", .array (.array (.pointer (.named "ns::Empty") true) 18446744073709551615) 0⟩] }]
  functions := [{ name := "reset", returnType := .void },
    { name := "operator+", returnType := .primitive (.integral .u64) "unsigned long long", operator := some .equal,
      params := [⟨some "", .reference (.pointer (.named "Scene") false) true⟩, ⟨none, CType.Sample.nested⟩] }]

end Sample

theorem decode_encode_sheet :
    Sample.sheet.Printable ∧ Declarations.decode Sample.sheet.encode = .ok Sample.sheet ∧
    (∀ decl ∈ Sample.sheet.structs, StructDecl.decode decl.encode = .ok decl) ∧
    (∀ decl ∈ Sample.sheet.functions, FunctionDecl.decode decl.encode = .ok decl) ∧
    CType.decode CType.Sample.nested.encode = .ok CType.Sample.nested := by
  have hstructs : ∀ decl ∈ Sample.sheet.structs, decl.Printable := by decide +kernel
  have hfunctions : ∀ decl ∈ Sample.sheet.functions, decl.Printable := by decide +kernel
  obtain ⟨htypes, -, -, hstruct, hfunction, hdecls, -, -⟩ := decode_encode_of_printable
  refine ⟨⟨hstructs, hfunctions⟩, hdecls _ ⟨hstructs, hfunctions⟩, ?_, ?_, ?_⟩
  · exact fun decl hdecl => hstruct decl (hstructs decl hdecl)
  · exact fun decl hdecl => hfunction decl (hfunctions decl hdecl)
  · exact htypes _ (by decide +kernel)

end HostBinding
