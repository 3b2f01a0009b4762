import XboxTls.Model.XboxClient

/-!
# Whose memory the anchors point into

The verifier does not own the certificates of its anchors: they are spans of the block that
`trust_store_data_` owns.
-/

set_option autoImplicit false

namespace XboxTls.Interface

open XboxTls.Model

/-- Every anchor lies inside the block that the client owns, which is still there, and there is
an anchor exactly when there is such a block. -/
structure AnchorsOwned {P : Crypto} {V : Type} (s : XboxSystem P V) : Prop where
  inside : ∀ span ∈ s.tls.world.verifier.anchors, s.client.trustStoreData = some span.block ∧
    ∃ data, s.tls.world.heap.lookup span.block = some data ∧ span.off + span.size ≤ data.length
  present : s.tls.world.verifier.anchors ≠ [] ↔ s.client.trustStoreData ≠ none

end XboxTls.Interface
