import Ecoa.Language.Cast
import Ecoa.Language.Literal
import Ecoa.Proofs.Build.Extension
import Ecoa.Proofs.Build.Wires
import Ecoa.Proofs.Component.Files
import Ecoa.Proofs.Declared.RoundTrip
import Ecoa.Proofs.Endpoint.Siblings
import Ecoa.Proofs.Entity.History
import Ecoa.Proofs.Language.Identifier
import Ecoa.Proofs.Linking.Inputs
import Ecoa.Proofs.Linking.Repeat
import Ecoa.Proofs.Linking.Residue
import Ecoa.Proofs.Model.Fingerprint
import Ecoa.Proofs.Model.Walk
import Ecoa.Proofs.Property.Constant
import Ecoa.Proofs.Property.Initializer
import Ecoa.Proofs.Property.Label
import Ecoa.Proofs.TypeOrder.Ordered
import Ecoa.Proofs.TypeOrder.Unrelated
import Ecoa.Proofs.VersionedData.Handle
import Ecoa.Proofs.VersionedData.Writers
