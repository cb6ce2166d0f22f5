import HostBinding.Document.Basic
import HostBinding.Mapping

/-!
# Serialized type mappings

A mapping is an object from native names to entries, whose order is the order of the mapping.
-/

namespace HostBinding

open Document

namespace TypeMapping

def encode (entry : TypeMapping) : Document :=
  .record [("host-name", ofOption .text entry.hostName), ("model", .text entry.model.tag),
    ("header", .text entry.header)]

structure Draft where
  hostName : Option String := none
  model : ProxyModel := .fieldwise
  header : Option String := none

def keys : List (Key Draft) :=
  [⟨"host-name", fun doc draft => return { draft with hostName := ← doc.toOption toText }⟩,
    ⟨"model", fun doc draft => return { draft with model := ← doc.toTagged ProxyModel.ofTag? }⟩,
    ⟨"header", fun doc draft => return { draft with header := some (← doc.toText) }⟩]

def decode (doc : Document) : Decoded TypeMapping := do
  let draft ← readRecord keys {} doc
  return { hostName := draft.hostName, model := draft.model, header := ← ofOption? draft.header }

end TypeMapping

namespace Mapping

def encode (mapping : Mapping) : Document :=
  .record (mapping.mapValues TypeMapping.encode).entries

def decode (doc : Document) : Decoded Mapping :=
  doc.toTable TypeMapping.decode

end Mapping

end HostBinding
