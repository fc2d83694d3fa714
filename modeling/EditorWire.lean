import EditorWire.CodeAction.Kind
import EditorWire.Dispatch.History
import EditorWire.Dispatch.Registry
import EditorWire.DocumentUri.Wire
import EditorWire.Holder.History
import EditorWire.Main
import EditorWire.Outcome
import EditorWire.Proofs.CodeAction.Batch
import EditorWire.Proofs.CodeAction.Canonical
import EditorWire.Proofs.CodeAction.Conditions
import EditorWire.Proofs.CodeAction.Lossless
import EditorWire.Proofs.CodeAction.ReadBack
import EditorWire.Proofs.CommandLine.FromPath
import EditorWire.Proofs.CommandLine.ToPath
import EditorWire.Proofs.Dispatch.Outcomes
import EditorWire.Proofs.Dispatch.Reencoding
import EditorWire.Proofs.Dispatch.Registrations
import EditorWire.Proofs.Dispatch.Spellings
import EditorWire.Proofs.DocumentUri.Canonical
import EditorWire.Proofs.DocumentUri.Inbound
import EditorWire.Proofs.DocumentUri.LocalPath
import EditorWire.Proofs.DocumentUri.Mapping
import EditorWire.Proofs.DocumentUri.NormalForm
import EditorWire.Proofs.DocumentUri.Rejection
import EditorWire.Proofs.DocumentUri.Respelling
import EditorWire.Proofs.DocumentUri.RoundTrip
import EditorWire.Proofs.DocumentUri.Strict
import EditorWire.Proofs.Holder.History
import EditorWire.Proofs.Json.Acceptance
import EditorWire.Proofs.Json.Compact
import EditorWire.Proofs.Json.Extension
import EditorWire.Proofs.Json.Joined
import EditorWire.Proofs.Json.Literal
import EditorWire.Proofs.Json.TextNesting
