import TypedConfig.Proofs.Document.Mending.Node
import TypedConfig.Proofs.Document.Placement

/-!
Where a text ceases to be a document.  The place that a syntax error names is never too late: what
stands in front of it is the beginning of a document.
-/

namespace TypedConfig

open Token (Quieter)

namespace Document

section Roots

variable {limit : Nat} {lead text : List Char}

theorem map_root_behind (limit : Nat) (before rest : List Char) :
    (readRoot limit (.behind before ('\x7b' :: rest))).map root
      = readNode limit limit (.behind before ('\x7b' :: rest)) :=
  map_root_readRoot limit rest (Text.Place.start.afterAll before)

end Roots

end Document

end TypedConfig
