import NovaOs.Fat32.Image
import NovaOs.Fat32.Refinement

/-! Which calls come back on a disk with arbitrary contents. The driver follows the root
directory's chain wherever it leads and counts no steps, so that a cycle holds it forever. -/

namespace NovaOs.Fat

section Entries

variable {α : Type} {buf : Bytes} {i left : Nat}

end Entries

section Loops

variable {α : Type} {fs : Fs}

end Loops

section Searching

variable {fs : Fs} {fuel : Nat} {name : Bytes}

variable (sound : fs.dev.faults = noFaults)

include sound

end Searching

section Calls

variable {fs : Fs}

end Calls

section Cyclic

set_option maxRecDepth 1000

end Cyclic

end NovaOs.Fat
