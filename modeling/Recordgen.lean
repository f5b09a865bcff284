import Recordgen.Main
import Recordgen.Proofs.AccessorCalls
import Recordgen.Proofs.BalancedScopes
import Recordgen.Proofs.ChainAllocation
import Recordgen.Proofs.ElementOrder
import Recordgen.Proofs.EventNesting
import Recordgen.Proofs.FieldTypeForm
import Recordgen.Proofs.FunctionKeys
import Recordgen.Proofs.IdentifierShapes
import Recordgen.Proofs.IncludeGuards
import Recordgen.Proofs.IntegerConstants
import Recordgen.Proofs.KeptFiles
import Recordgen.Proofs.LastSetters
import Recordgen.Proofs.NestedTraversal
import Recordgen.Proofs.PartialEmission
import Recordgen.Proofs.PathGrammar
import Recordgen.Proofs.QuotedText
import Recordgen.Proofs.ReportText
import Recordgen.Proofs.SiblingIndependence
import Recordgen.Proofs.StorageEmission
import Recordgen.Proofs.TypeDispatch
