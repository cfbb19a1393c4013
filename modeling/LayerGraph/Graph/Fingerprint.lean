import LayerGraph.Digest.Sha256
import LayerGraph.Graph

/-!
# Fingerprints

Two builds of the same records have the same fingerprint, whatever the order in which they were
built: it digests a text that lists nodes and edges in their order.
-/

namespace LayerGraph.Graph

/-- The SHA-256 digest of the fingerprint text, in hexadecimal. -/
def fingerprint (g : Graph) : String :=
  Digest.sha256Hex g.fingerprintText.toUTF8

end LayerGraph.Graph
