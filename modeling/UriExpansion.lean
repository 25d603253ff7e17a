import UriExpansion.CommandLine
import UriExpansion.Bindings
import UriExpansion.Diagnostic
import UriExpansion.Expansion.Partial
import UriExpansion.Json.Tree
import UriExpansion.Log
import UriExpansion.Main
import UriExpansion.Settings.Document
import UriExpansion.Workspace
import UriExpansion.Proofs.AttributeReading
import UriExpansion.Proofs.AttributeRule
import UriExpansion.Proofs.Inheritance
import UriExpansion.Proofs.Braces
import UriExpansion.Proofs.Classification
import UriExpansion.Proofs.Concatenation
import UriExpansion.Proofs.Concealment
import UriExpansion.Proofs.Console
import UriExpansion.Proofs.Dependence
import UriExpansion.Proofs.Derivation
import UriExpansion.Proofs.Diagnosis
import UriExpansion.Proofs.EncoderInput
import UriExpansion.Proofs.Entries
import UriExpansion.Proofs.ErrorLines
import UriExpansion.Proofs.Explosion
import UriExpansion.Proofs.FailureAgreement
import UriExpansion.Proofs.FullBinding
import UriExpansion.Proofs.History
import UriExpansion.Proofs.Idempotence
import UriExpansion.Proofs.Inertness
import UriExpansion.Proofs.Keywords
import UriExpansion.Proofs.Layout
import UriExpansion.Proofs.Loading
import UriExpansion.Proofs.Neutrality
import UriExpansion.Proofs.ProgressiveBinding
import UriExpansion.Proofs.Recovery
import UriExpansion.Proofs.Refusal
import UriExpansion.Proofs.Remainder
import UriExpansion.Proofs.Report
import UriExpansion.Proofs.ReservedProfile
import UriExpansion.Proofs.Stages
import UriExpansion.Proofs.Streaming
import UriExpansion.Proofs.Trace
import UriExpansion.Proofs.Truncation
import UriExpansion.Proofs.Validation
