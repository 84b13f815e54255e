import HclTidy.Config.Load
import HclTidy.Yaml.Value

/-!
# Reading configuration documents

The reader of YAML documents that a program gives to the loading of its configuration. It has no
limit on how deeply a document nests.
-/

set_option autoImplicit false

namespace HclTidy.Yaml

/-- What a fault in a text is to the loading of a configuration. -/
def Fault.toDocumentFault : Fault → DocumentFault
  | .malformed | .unfinished => .malformed
  | .scalar fault => .breakdown (.scalar fault)
  | .encoding fault => .breakdown (.encoding fault)

def reader : Config.Reader := fun content =>
  (readDocument Config.documentDepth (.ofBytes content)).mapError Fault.toDocumentFault

end HclTidy.Yaml
