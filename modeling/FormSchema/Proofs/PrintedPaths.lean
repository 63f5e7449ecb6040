import FormSchema.Proofs.Addressed
import FormSchema.Proofs.InferAgain
import FormSchema.Proofs.Walk

/-!
What an inference prints beside the schema that it writes. It lists the bindings of a schema that it has parsed,
but of one that it has left as it was it lists none.
-/
namespace FormSchema

namespace Program
variable {yaml : YamlPackage}

end Program
end FormSchema
