import BranchSync.Json.Forms
import BranchSync.Json.Text
import BranchSync.Main
import BranchSync.Program.FileSystem
import BranchSync.Proofs.Authorization.Grants
import BranchSync.Proofs.Authorization.Monotone
import BranchSync.Proofs.Config.Printing
import BranchSync.Proofs.Document.Answering
import BranchSync.Proofs.Document.Headers
import BranchSync.Proofs.Identifier.References
import BranchSync.Proofs.Identifier.Spelling
import BranchSync.Proofs.Json.Shapes
import BranchSync.Proofs.Json.Stability
import BranchSync.Proofs.Mailbox.Replay
import BranchSync.Proofs.Net.Addresses
import BranchSync.Proofs.Payload.CallOrder
import BranchSync.Proofs.Payload.Grammar
import BranchSync.Proofs.Pull.Answers
import BranchSync.Proofs.Pull.Serving
import BranchSync.Proofs.Push.Acceptance
import BranchSync.Proofs.Push.Protocol
import BranchSync.Proofs.Repository.Copying
import BranchSync.Proofs.Repository.FirstOccurrence
import BranchSync.Proofs.Repository.PackForm
import BranchSync.Proofs.Session.Atomicity
import BranchSync.Proofs.Session.CallDiscipline
import BranchSync.Proofs.Session.Delivery
import BranchSync.Proofs.Session.Noninterference
import BranchSync.Proofs.Session.Queueing
import BranchSync.Proofs.Session.Robustness
import BranchSync.Proofs.Toml.Documents
import BranchSync.Proofs.World.MailboxTrouble
import BranchSync.Proofs.World.Mirroring
import BranchSync.Proofs.World.Notification
import BranchSync.Proofs.World.Racing
import BranchSync.Proofs.World.SpentStarts
import BranchSync.Proofs.World.StartCheck
import BranchSync.Proofs.World.StuckBranches
import BranchSync.Server.Status
