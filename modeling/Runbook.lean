import Runbook.Command.Surface
import Runbook.FileSystem.Changes
import Runbook.Main
import Runbook.Proofs.EnvFile.Bindings
import Runbook.Proofs.Frames
import Runbook.Proofs.Dispatch
import Runbook.Proofs.Forwarding
import Runbook.Proofs.ChildEnvironment
import Runbook.Proofs.Endings
import Runbook.Proofs.Gating
import Runbook.Proofs.ExitStatus
import Runbook.Proofs.FileSystem.Outline
import Runbook.Proofs.SideBySide
import Runbook.Proofs.EnvFile.Influence
import Runbook.Proofs.EnvFile.Leaving
import Runbook.Proofs.EnvFile.Legality
import Runbook.Proofs.EnvFile.Anchored
import Runbook.Proofs.SchemaStorage
import Runbook.Proofs.Aftermath
import Runbook.Proofs.Interrupts
import Runbook.Proofs.OptionScanner
import Runbook.Proofs.Diagnostics
import Runbook.Proofs.Selection
import Runbook.Proofs.EnvFile.Accounting
import Runbook.Proofs.EnvFile.BareLines
import Runbook.Proofs.EnvFile.WrittenOut
import Runbook.Proofs.EnvFile.Damage
import Runbook.Proofs.EnvFile.Transcript
import Runbook.Proofs.Boundary
import Runbook.Proofs.Literals
import Runbook.Proofs.ShellLine
import Runbook.Proofs.Rendering
import Runbook.Proofs.LineBreaks
import Runbook.Proofs.RequestFields
import Runbook.Proofs.NearestProject
import Runbook.Proofs.EnvFile.LineEnds
import Runbook.Proofs.FileSystem.Canonical
import Runbook.Proofs.CanonicalRoot
