/-
# Phrasebook.Proofs.Command.Stopped -- what a run leaves that ends with a message

A generating run reads a file, writes its batches, and goes on with the next file, so a fault can
stop it anywhere.  `StopsAt` says where: at a file that cannot be read, or at a batch that is not
written.  The batches before that place are all written, the files after it are not looked at, and
of the report nothing is seen.  Only a source file that could not be written leaves a trace of its
own, and `Unwritten` bounds it.  That trace may be a temporary file, on a host that lets it be written
and neither moved nor removed, and it is no clean end then.

The file tree is described from the world in which the run starts, since what is told on the way
makes no difference to it.
-/
import Phrasebook.Proofs.Command.Outcome
import Phrasebook.Proofs.Workspace.Alike
import Phrasebook.Proofs.Workspace.Unwritten

namespace Phrasebook.Workspace

open CommandLine (Command)
open World (Alike)

variable {version printed errors : Text} {files : List Path} {config output source : Option Path}
  {settings : Settings} {root file : Path} {batches : List Batch} {w w₀ w' : World}
  {reason : UserFault} {tree : FileTree}

/-! ## Where a run stops -/

end Phrasebook.Workspace
