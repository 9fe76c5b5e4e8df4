import ViewBuilder.Main
import ViewBuilder.Proofs.Registry.Set
import ViewBuilder.Proofs.Resolver.Place
import ViewBuilder.Proofs.Resolver.Visit
import ViewBuilder.Proofs.Resolver.Reach
import ViewBuilder.Proofs.Resolver.Recursion
import ViewBuilder.Proofs.Run.Templates
import ViewBuilder.Proofs.CustomCode.Cut
import ViewBuilder.Proofs.CustomCode.Refill
import ViewBuilder.Proofs.CustomCode.Around
import ViewBuilder.Proofs.Markup.Indent
import ViewBuilder.Proofs.CustomCode.Capture
import ViewBuilder.Proofs.Tab.Markup
import ViewBuilder.Proofs.Tab.Regeneration
import ViewBuilder.Proofs.CustomCode.Reinstate
import ViewBuilder.Proofs.Run.Operation
import ViewBuilder.Proofs.Run.Once
import ViewBuilder.Proofs.Registry.Shape
import ViewBuilder.Proofs.Run.Shape
import ViewBuilder.Proofs.Run.Recompile
import ViewBuilder.Proofs.Resolver.Lineage
import ViewBuilder.Proofs.Resolver.Loop
import ViewBuilder.Proofs.Run.Tabs
import ViewBuilder.Proofs.Run.Failure
import ViewBuilder.Proofs.Run.Independence
import ViewBuilder.Proofs.Reference.Calls
import ViewBuilder.Proofs.Resolver.DepthError
import ViewBuilder.Proofs.Reference.Complete
import ViewBuilder.Proofs.CustomCode.Nested
import ViewBuilder.Proofs.Registry.Overlap
import ViewBuilder.Proofs.Tab.Guard
import ViewBuilder.Proofs.Reference.Around
import ViewBuilder.Proofs.Tab.References
import ViewBuilder.Proofs.Run.Strings
import ViewBuilder.Proofs.Registry.Remove
import ViewBuilder.Proofs.Placeholders.Bracket
import ViewBuilder.Proofs.Placeholders.Hash
import ViewBuilder.Proofs.Text.Numeral
import ViewBuilder.Proofs.Tab.Names
import ViewBuilder.Proofs.Tab.Kept
import ViewBuilder.Proofs.CustomCode.History
import ViewBuilder.Proofs.CustomCode.Inline
import ViewBuilder.Proofs.CustomCode.Spans
import ViewBuilder.Proofs.Placeholders.Values
import ViewBuilder.Proofs.Registry.Dotted
import ViewBuilder.Proofs.ViewItem
import ViewBuilder.Proofs.Language
import ViewBuilder.Proofs.Alias
import ViewBuilder.Proofs.Files
