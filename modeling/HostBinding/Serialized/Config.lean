import HostBinding.Config
import HostBinding.Document.Basic

/-!
# Serialized configurations

Every key may be left out, and then has its default.
-/

namespace HostBinding.Config

open Document

def encode (config : Config) : Document :=
  .record [("shim-prefix", .text config.shimStart), ("shim-qualifiers", .text config.shimQualifiers),
    ("shim-source-ident", .text config.shimSourceIdent),
    ("by-value-return-limit", ofOption ofWord64 config.byValueReturnLimit),
    ("operator-override", .text config.operatorOverride.tag),
    ("pointer-width", ofWord64 config.pointerWidth)]

def keys : List (Key Config) :=
  [⟨"shim-prefix", fun doc draft => return { draft with shimStart := ← doc.toText }⟩,
    ⟨"shim-qualifiers", fun doc draft => return { draft with shimQualifiers := ← doc.toText }⟩,
    ⟨"shim-source-ident", fun doc draft => return { draft with shimSourceIdent := ← doc.toText }⟩,
    ⟨"by-value-return-limit", fun doc draft =>
      return { draft with byValueReturnLimit := ← doc.toOption toWord64 }⟩,
    ⟨"operator-override", fun doc draft =>
      return { draft with operatorOverride := ← doc.toTagged OverridePolicy.ofTag? }⟩,
    ⟨"pointer-width", fun doc draft => return { draft with pointerWidth := ← doc.toWord64 }⟩]

def decode (doc : Document) : Decoded Config :=
  readRecord keys {} doc

end HostBinding.Config
