import Aimee.Audit.WormRepeat
import Aimee.Core.KnowledgeEpochs
import Aimee.Core.Http1
import Aimee.Vault.WitnessOrder
import Aimee.Workflow.Blockers
import Aimee.Workflow.Admission
import Aimee.Workflow.Histories
import Aimee.Workflow.Loops
import Aimee.Economizer.ClosetConserved
import Aimee.Economizer.JsonAccept
import Aimee.ExecutionPolicy.SingleFlight
import Aimee.ExecutionPolicy.RetryRuns
import Aimee.Families.JtiReplay
import Aimee.Families.MgmtNonceRuns
import Aimee.Egress.Agreement
import Aimee.Economizer.Mending
import Aimee.ExecutionPolicy.ExplorationRuns
import Aimee.Wfe.Delivery
import Aimee.Wfe.ApprovalRuns
import Aimee.Ir.Interleaving
import Aimee.Memory.FenceRuns
import Aimee.Roundtable.Reserve
import Aimee.Vault.FileRekey
import Aimee.Vault.TenantBind
import Aimee.Vault.RotationWrites
import Aimee.Vault.WitnessCodec
import Aimee.Vault.WitnessSnapshot
import Aimee.Vault.KekCache
import Aimee.Vault.Capability
import Aimee.Vault.ResealRuns
import Aimee.Scheduler.DueWork
import Aimee.Scheduler.Cancellations
import Aimee.Families.FieldFrames
import Aimee.Roundtable.ChunkPlan
import Aimee.Economizer.TaskCostReport
import Aimee.Economizer.BreakerRuns
import Aimee.ExecutionPolicy.FallbackRuns
import Aimee.Economizer.CondenseLossless
import Aimee.Delegates.RescueDetect
import Aimee.Delegates.PatchReports
import Aimee.Economizer.StateRuns
import Aimee.Ir.ToolPaths
