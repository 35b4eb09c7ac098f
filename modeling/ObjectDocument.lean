import ObjectDocument.Catalogue.Debug
import ObjectDocument.Deriving.Declare
import ObjectDocument.Deriving.Spelled
import ObjectDocument.Mapper.Setup
import ObjectDocument.Proofs.BuildOrder
import ObjectDocument.Proofs.Defaults
import ObjectDocument.Proofs.EditHistory
import ObjectDocument.Proofs.EventLog
import ObjectDocument.Proofs.Evolution
import ObjectDocument.Proofs.FieldCells
import ObjectDocument.Proofs.FirstFault
import ObjectDocument.Proofs.Integers
import ObjectDocument.Proofs.Kernel
import ObjectDocument.Proofs.Precedence
import ObjectDocument.Proofs.ReadBack
import ObjectDocument.Proofs.Rearrangement
import ObjectDocument.Proofs.Reentry
import ObjectDocument.Proofs.Routing
import ObjectDocument.Proofs.Shape
import ObjectDocument.Proofs.Standalone
import ObjectDocument.Proofs.StoredNames
import ObjectDocument.Proofs.VariantNames
import ObjectDocument.Settings.Debug
import ObjectDocument.Settings.Toml
