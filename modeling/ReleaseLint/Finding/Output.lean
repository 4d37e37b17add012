/-
# Findings in the output of a tool

Each tool has its way of saying what it found.  The output of `helm` can always be
read; the other tools print reports.
-/

import ReleaseLint.Finding.EmbeddedCluster
import ReleaseLint.Finding.Helm
import ReleaseLint.Finding.Kots
import ReleaseLint.Finding.Troubleshoot
import ReleaseLint.Tool.Basic

namespace ReleaseLint
namespace Finding

/-- The findings of an output of a tool. -/
def ofOutput : Tool → String → Except Fault (List Finding)
  | .helm, output => .ok (Helm.ofOutput output)
  | .preflight, output => Troubleshoot.ofOutput output
  | .supportBundle, output => Troubleshoot.ofOutput output
  | .embeddedCluster, output => EmbeddedCluster.ofOutput output
  | .kots, output => Kots.ofOutput output

end Finding
end ReleaseLint
