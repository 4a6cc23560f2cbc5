import HostConfig.Config.Hash
import HostConfig.Json.Reader
import HostConfig.Report
import HostConfig.Session
import HostConfig.Proofs.Resolution.ClosedForm
import HostConfig.Proofs.Resolution.Termination
import HostConfig.Proofs.Relevant.Closure
import HostConfig.Proofs.Relevant.LoadedFiles
import HostConfig.Proofs.Load.Cycle
import HostConfig.Proofs.Load.ProblemPlace
import HostConfig.Proofs.Load.Order
import HostConfig.Proofs.Load.HostOverMain
import HostConfig.Proofs.Load.HostAsGroup
import HostConfig.Proofs.Load.GroupWrap
import HostConfig.Proofs.Load.Irrelevant
import HostConfig.Proofs.Layout.Confinement
import HostConfig.Proofs.Load.Confinement
import HostConfig.Proofs.Load.Dotfiles
import HostConfig.Proofs.Payload.Service
import HostConfig.Proofs.Document.Context
import HostConfig.Proofs.Document.Language
import HostConfig.Proofs.Document.Acceptance
import HostConfig.Proofs.Load.Cosmetic
import HostConfig.Proofs.Document.Writing
import HostConfig.Proofs.Load.Raising
import HostConfig.Proofs.Session.Isolation
import HostConfig.Proofs.Load.Provenance
import HostConfig.Proofs.Load.WellFormed
import HostConfig.Proofs.Load.GroupTrace
import HostConfig.Proofs.Relevant.Discovery
import HostConfig.Proofs.Document.Assignment
import HostConfig.Proofs.Load.Warnings
import HostConfig.Proofs.Config.Hash
import HostConfig.Proofs.Text.Quotation
import HostConfig.Proofs.Text.Stripping
import HostConfig.Proofs.Document.Admission
import HostConfig.Proofs.Document.FirstProblem
import HostConfig.Proofs.Entries.Batches
import HostConfig.Proofs.Resolution.Service
import HostConfig.Proofs.Resolution.Restoring
import HostConfig.Proofs.Document.Tokens
import HostConfig.Proofs.Config.ReadBack
import HostConfig.Proofs.Config.Yaml
import HostConfig.Proofs.Document.GroupName
