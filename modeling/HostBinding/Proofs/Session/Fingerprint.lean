import HostBinding.Proofs.FunctionBinding.Draft
import HostBinding.Proofs.StructBinding.Draft

/-!
# What a fingerprint is made from

A fingerprint is a digest of texts, each with its length before it, and of nothing that says how many there are. The
lengths have a fixed number of digits, so the bytes can be cut into texts again from the front. Two keys with the
same bytes therefore have the same texts. The texts of a struct and of a function hold a list in the middle, with a
fixed number of texts before and behind it, which is how the end of the list is found.
-/

namespace HostBinding

/-! ### Numbers and texts as bytes -/

namespace Bytes

theorem littleEndian_inj {count value value' : Nat} (hvalue : value < Nat.pow 256 count)
    (hvalue' : value' < Nat.pow 256 count) (h : littleEndian count value = littleEndian count value') :
    value = value' := by
  induction count generalizing value value' with
  | zero =>
    simp only [Nat.pow_eq, Nat.pow_zero, Nat.lt_one_iff] at hvalue hvalue'
    rw [hvalue, hvalue']
  | succ count ih =>
    rw [littleEndian, littleEndian, List.cons.injEq] at h
    obtain ⟨hlow, hhigh⟩ := h
    have hmod : value % 256 = value' % 256 := by simpa using congrArg UInt8.toNat hlow
    have hdiv : value / 256 = value' / 256 := by
      rw [Nat.pow_eq, Nat.pow_succ] at hvalue hvalue'
      apply ih (Nat.div_lt_of_lt_mul ?_) (Nat.div_lt_of_lt_mul ?_) hhigh
      · rwa [Nat.mul_comm]
      · rwa [Nat.mul_comm]
    rw [← Nat.div_add_mod value 256, ← Nat.div_add_mod value' 256, hdiv, hmod]

@[simp]
theorem length_ofText (text : String) : (ofText text).length = text.utf8ByteSize :=
  rfl

theorem ofText_injective {text text' : String} (h : ofText text = ofText text') : text = text' := by
  apply String.toByteArray_inj.mp
  exact ByteArray.ext (Array.toList_inj.mp h)

end Bytes

namespace DeclKey

/-- A text whose length fits into the word that is written before it. -/
def Sized (text : String) : Prop :=
  text.utf8ByteSize < UInt64.size

instance (text : String) : Decidable (Sized text) :=
  inferInstanceAs (Decidable (_ < _))

variable {text text' : String} {parts parts' : List String} {after after' : List UInt8}

/-- A text is cut off the bytes that begin with it. -/
theorem partBytes_append_inj (hsized : Sized text) (hsized' : Sized text')
    (h : partBytes text ++ after = partBytes text' ++ after') : text = text' ∧ after = after' := by
  rw [partBytes, partBytes, List.append_assoc, List.append_assoc] at h
  obtain ⟨hlength, hrest⟩ := List.append_inj h (by rw [Bytes.length_littleEndian, Bytes.length_littleEndian])
  have hword : UInt64.size = Nat.pow 256 8 := rfl
  rw [Sized, hword, ← Bytes.length_ofText] at hsized hsized'
  have hsame : (Bytes.ofText text).length = (Bytes.ofText text').length :=
    Bytes.littleEndian_inj hsized hsized' hlength
  obtain ⟨htext, hafter⟩ := List.append_inj hrest hsame
  exact ⟨Bytes.ofText_injective htext, hafter⟩

theorem partBytes_ne_nil (text : String) : partBytes text ≠ [] :=
  List.cons_ne_nil _ _

/-- The bytes of texts, each with its length before it, determine how many texts there are and each of them. -/
theorem fingerprintBytes_inj (hsized : ∀ text ∈ parts, Sized text) (hsized' : ∀ text ∈ parts', Sized text) :
    fingerprintBytes parts = fingerprintBytes parts' ↔ parts = parts' := by
  refine ⟨fun h => ?_, congrArg _⟩
  induction parts generalizing parts' with
  | nil =>
    cases parts' with
    | nil => rfl
    | cons text' rest' => exact absurd (List.append_eq_nil_iff.mp h.symm).1 (partBytes_ne_nil text')
  | cons text rest ih =>
    cases parts' with
    | nil => exact absurd (List.append_eq_nil_iff.mp h).1 (partBytes_ne_nil text)
    | cons text' rest' =>
      obtain ⟨htext, hrest⟩ := List.forall_mem_cons.mp hsized
      obtain ⟨htext', hrest'⟩ := List.forall_mem_cons.mp hsized'
      obtain ⟨hfirst, hafter⟩ := partBytes_append_inj htext htext' h
      rw [hfirst, ih hrest hrest' hafter]

end DeclKey

/-! ### Declarations as they are fingerprinted -/

/-- What a fingerprint is made from: of a declaration, of its header and of its entry in the mapping, whatever two
declarations with the same fingerprint have in common. -/
inductive FingerprintSource where
  | struct (header digest name : String) (fields : List (String × String)) (comment hostName : String)
      (model : ProxyModel)
  | function (header digest name returnType : String) (params : List (String × String))
      (operator : Option Operator) (overloaded : Bool)
deriving DecidableEq

namespace FingerprintSource

def members (pairs : List (String × String)) : List String :=
  pairs.flatMap fun pair => [pair.1, pair.2]

def parts : FingerprintSource → List String
  | struct header digest name fields comment hostName model =>
    [header, digest, "struct", name] ++ members fields ++ [comment, hostName, model.tag]
  | function header digest name returnType params operator overloaded =>
    [header, digest, "function", name, returnType] ++ members params ++
      [(operator.map (·.mnemonic)).getD "", if overloaded then "overloaded" else "unique"]

theorem members_inj {pairs pairs' : List (String × String)} (h : members pairs = members pairs') :
    pairs = pairs' := by
  have hsame := StructBatch.forall₂_of_flatMap_pair_eq h
  simpa using map_eq_map_of_forall₂ (f := id) (g := id) hsame fun _ _ heq => Prod.ext heq.1 heq.2

theorem flag_inj {overloaded overloaded' : Bool}
    (h : (if overloaded then "overloaded" else "unique") = if overloaded' then "overloaded" else "unique") :
    overloaded = overloaded' := by
  cases overloaded <;> cases overloaded' <;> simp_all

theorem parts_injective {source source' : FingerprintSource} (h : source.parts = source'.parts) :
    source = source' := by
  cases source with
  | struct header digest name fields comment hostName model =>
    cases source' with
    | function => simp [parts] at h
    | struct header' digest' name' fields' comment' hostName' model' =>
      simp only [parts, List.cons_append, List.nil_append, List.cons.injEq] at h
      obtain ⟨rfl, rfl, -, rfl, hrest⟩ := h
      -- What stands behind the fields has a fixed number of parts.
      obtain ⟨hfields, hbehind⟩ := List.append_inj' hrest rfl
      simp only [List.cons.injEq, and_true] at hbehind
      obtain ⟨rfl, rfl, hmodel⟩ := hbehind
      rw [members_inj hfields, StructBatch.tag_inj hmodel]
  | function header digest name returnType params operator overloaded =>
    cases source' with
    | struct => simp [parts] at h
    | function header' digest' name' returnType' params' operator' overloaded' =>
      simp only [parts, List.cons_append, List.nil_append, List.cons.injEq] at h
      obtain ⟨rfl, rfl, -, rfl, rfl, hrest⟩ := h
      obtain ⟨hparams, hbehind⟩ := List.append_inj' hrest rfl
      simp only [List.cons.injEq, and_true] at hbehind
      obtain ⟨hoperator, hflag⟩ := hbehind
      rw [members_inj hparams, FunctionBatch.operator_inj hoperator, flag_inj hflag]

end FingerprintSource

/-- The header, the digest, the declaration and the mapping entry of a struct. -/
def StructBatch.source (batch : StructBatch) (decl : StructDecl) (entry : TypeMapping) : FingerprintSource :=
  .struct entry.header (batch.digest.getD "") decl.name (decl.fields.map fun field => (field.name, field.type.spell))
    (decl.comment.getD "") (entry.hostNameFor decl.name) entry.model

/-- The header, the digest and the declaration of a function, and whether it is overloaded. -/
def FunctionBatch.source (batch : FunctionBatch) (decl : FunctionDecl) : FingerprintSource :=
  .function batch.header (batch.digest.getD "") decl.name decl.returnType.spell
    (decl.params.map fun param => (param.name.getD "", param.type.spell)) decl.operator (batch.isOverloaded decl)

theorem StructBatch.parts_key (batch : StructBatch) (decl : StructDecl) (entry : TypeMapping) :
    (batch.key decl entry).parts = (batch.source decl entry).parts := by
  rw [key, source, FingerprintSource.parts, FingerprintSource.members, List.flatMap_map]

theorem FunctionBatch.parts_key (batch : FunctionBatch) (decl : FunctionDecl) :
    (batch.key decl).parts = (batch.source decl).parts := by
  rw [key, source, FingerprintSource.parts, FingerprintSource.members, List.flatMap_map]

namespace DeclKey

/-- Every text of the key has a length of 64 bits. -/
def IsSized (key : DeclKey) : Prop :=
  ∀ text ∈ key.parts, Sized text

instance (key : DeclKey) : Decidable key.IsSized :=
  inferInstanceAs (Decidable (∀ text ∈ key.parts, Sized text))

/-- What the fingerprint is the digest of. -/
def bytes (key : DeclKey) : List UInt8 :=
  fingerprintBytes key.parts

theorem bytes_eq_iff {key key' : DeclKey} {source source' : FingerprintSource} (hsized : key.IsSized)
    (hsized' : key'.IsSized) (hparts : key.parts = source.parts) (hparts' : key'.parts = source'.parts) :
    key.bytes = key'.bytes ↔ source = source' := by
  rw [bytes, bytes, fingerprintBytes_inj hsized hsized', hparts, hparts']
  exact ⟨FingerprintSource.parts_injective, congrArg _⟩

/-- **A fingerprint is made from bytes that determine what they were made from**: from two structs they are the same
exactly when header, digest, name, fields, comment, host name and model are; from two functions, exactly when header,
digest, name, return type, parameters, operator and the mark of an overload are; and a struct and a function never
have the same bytes. -/
theorem bytes_determine_source :
    (∀ (batch batch' : StructBatch) (decl decl' : StructDecl) (entry entry' : TypeMapping),
      (batch.key decl entry).IsSized → (batch'.key decl' entry').IsSized →
      ((batch.key decl entry).bytes = (batch'.key decl' entry').bytes ↔
        batch.source decl entry = batch'.source decl' entry')) ∧
    (∀ (batch batch' : FunctionBatch) (decl decl' : FunctionDecl),
      (batch.key decl).IsSized → (batch'.key decl').IsSized →
      ((batch.key decl).bytes = (batch'.key decl').bytes ↔ batch.source decl = batch'.source decl')) ∧
    ∀ (batch : StructBatch) (decl : StructDecl) (entry : TypeMapping) (batch' : FunctionBatch)
      (decl' : FunctionDecl), (batch.key decl entry).IsSized → (batch'.key decl').IsSized →
      (batch.key decl entry).bytes ≠ (batch'.key decl').bytes := by
  refine ⟨?_, ?_, ?_⟩
  · intro batch batch' decl decl' entry entry' hsized hsized'
    exact bytes_eq_iff hsized hsized' (batch.parts_key decl entry) (batch'.parts_key decl' entry')
  · intro batch batch' decl decl' hsized hsized'
    exact bytes_eq_iff hsized hsized' (batch.parts_key decl) (batch'.parts_key decl')
  · intro batch decl entry batch' decl' hsized hsized' hbytes
    have hsource := (bytes_eq_iff hsized hsized' (batch.parts_key decl entry) (batch'.parts_key decl')).mp hbytes
    cases hsource

namespace Sample

def scales : StructBatch where
  structs := []
  mapping := ∅

def calls : FunctionBatch where
  functions := []
  header := "scale.h"

def scale : StructDecl :=
  { name := "Scale", fields := [⟨"by", .ofPrimitive (.floating .f32)⟩] }

/-- A struct whose comment goes on like the field of the other one, with the length of the second text inside. -/
def imitated : StructDecl :=
  { name := "Scale", comment := some "by\x05\x00\x00\x00\x00\x00\x00\x00float" }

def scaleBy : FunctionDecl :=
  { name := "Scale", returnType := .void, params := [⟨none, .ofPrimitive (.floating .f32)⟩] }

end Sample

open DeclKey.Sample in
theorem bytes_determine_source_scale :
    (scales.key scale { header := "scale.h" }).IsSized ∧ (scales.key imitated { header := "scale.h" }).IsSized ∧
    (calls.key scaleBy).IsSized ∧
    (scales.key scale { header := "scale.h" }).bytes =
      (scales.key { scale with comment := some "" } { header := "scale.h", hostName := some "Scale" }).bytes ∧
    (scales.key scale { header := "scale.h" }).bytes ≠ (scales.key imitated { header := "scale.h" }).bytes ∧
    (calls.key scaleBy).bytes =
      (calls.key { scaleBy with params := [⟨some "", .ofPrimitive (.floating .f32)⟩] }).bytes ∧
    (scales.key scale { header := "scale.h" }).bytes ≠ (calls.key scaleBy).bytes := by
  have hscale : (scales.key scale { header := "scale.h" }).IsSized := by decide +kernel
  have himitated : (scales.key imitated { header := "scale.h" }).IsSized := by decide +kernel
  have hcall : (calls.key scaleBy).IsSized := by decide +kernel
  obtain ⟨hstructs, hfunctions, hapart⟩ := bytes_determine_source
  refine ⟨hscale, himitated, hcall, ?_, ?_, ?_, ?_⟩
  · exact (hstructs scales scales _ _ _ _ hscale (by decide +kernel)).mpr (by decide +kernel)
  · exact fun h => absurd ((hstructs scales scales _ _ _ _ hscale himitated).mp h) (by decide +kernel)
  · exact (hfunctions calls calls _ _ hcall (by decide +kernel)).mpr (by decide +kernel)
  · exact hapart scales _ _ calls _ hscale hcall

end DeclKey

end HostBinding
