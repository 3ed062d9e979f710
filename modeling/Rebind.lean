import Rebind.Main
import Rebind.Settings.Replacement
import Rebind.Proofs.Edit.Order
import Rebind.Proofs.Java.Structure
import Rebind.Proofs.Conversion.Unbinding
import Rebind.Proofs.Conversion.Brackets
import Rebind.Proofs.Java.ClassReading
import Rebind.Proofs.Project.DryRun
import Rebind.Proofs.Conversion.FreshIds
import Rebind.Proofs.Binding.Comments
import Rebind.Proofs.Binding.Handlers
import Rebind.Proofs.Binding.Arguments
import Rebind.Proofs.Conversion.Calls
import Rebind.Proofs.Conversion.Teardown
import Rebind.Proofs.Conversion.Hygiene
import Rebind.Proofs.Java.Pairing
import Rebind.Proofs.Java.Masking
import Rebind.Proofs.Java.Labels
import Rebind.Proofs.Java.Spacing
import Rebind.Proofs.Settings.Ignoring
import Rebind.Proofs.Naming
import Rebind.Proofs.Project.Precedence
import Rebind.Proofs.Layout.Declaration
