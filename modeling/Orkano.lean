import Orkano.Dashboard.Auth.Lockout
import Orkano.Dashboard.Auth.Logout
import Orkano.Dashboard.Auth.RecoveryCodes
import Orkano.Dashboard.Auth.RateLimit
import Orkano.Dashboard.Auth.Provisioning
import Orkano.Dashboard.Resources.SecretNames
import Orkano.Dashboard.Resources.EnvSecret
import Orkano.Dashboard.Resources.EnvEditor
import Orkano.Dashboard.Resources.BuildList
import Orkano.Dashboard.RepoPolicy.AuditTrail
import Orkano.Dashboard.Logs.Delivery
import Orkano.Dashboard.Web.EventStream
import Orkano.Operator.DispatchHead
import Orkano.Operator.BuildCap
import Orkano.Operator.BuildJob
import Orkano.Doctor.NetpolVerdict
import Orkano.Install.AllowlistMigration
import Orkano.Install.GenerateOnce
import Orkano.Install.NodeRegistry
import Orkano.Install.SecretFlow
import Orkano.K3s.Convergence
import Orkano.Nodeprep.AppArmor
import Orkano.Operator.Catalog.Credentials
import Orkano.Operator.BuildController.StatusMachine
import Orkano.Operator.BuildController.JobOwnership
import Orkano.Operator.BuildController.OneJob
import Orkano.Operator.BuildController.Orphans
import Orkano.Operator.BuildController.FeatureGate
import Orkano.Operator.BuildController.Record
import Orkano.Operator.BuildController.Recreation
import Orkano.Operator.DomainController.DanglingURL
import Orkano.Operator.GitResolver.Grammar
import Orkano.Operator.GitResolver.Embedded
import Orkano.Operator.GitResolver.PublicDials
import Orkano.Operator.OneBuild
import Orkano.Operator.OwnImages
import Orkano.Receiver.Admission
import Orkano.RepoAllowlist.Codec
import Orkano.SourceArchive.Extraction
