import Lisplet.Proofs.Batch
import Lisplet.Proofs.Comments
import Lisplet.Proofs.FormEnds
import Lisplet.Proofs.Frames

/-! Source text that is a value. `eval` reads a string as a session reads a text, but it knows no
session and always takes a semicolon for the start of a comment. Whether that makes a difference is
a matter of the text alone. -/
namespace Lisplet

namespace Session
open Run

end Session

end Lisplet
