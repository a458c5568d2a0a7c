import Retarget.CommandLine.FileTree
import Retarget.Main
import Retarget.Proofs.Lua.Switch
import Retarget.Proofs.Lua.Name
import Retarget.Proofs.Lua.Quote
import Retarget.Proofs.Flow.Complete
import Retarget.Proofs.Flow.Dead
import Retarget.Proofs.Flow.Numbering
import Retarget.Proofs.Optimize.Meaning
import Retarget.Proofs.Optimize.Fixpoint
import Retarget.Proofs.Source.Line
import Retarget.Proofs.Document.RoundTrip
import Retarget.Proofs.Llvm.Names
import Retarget.Proofs.Mlir.Key
import Retarget.Proofs.Syntax.RoundTrip
import Retarget.Proofs.Document.Accept
import Retarget.Proofs.Lower.Destructure.Meaning
import Retarget.Proofs.Lower.Orphan
import Retarget.Proofs.Lower.Place.Jump
import Retarget.Proofs.Wasm.Control
