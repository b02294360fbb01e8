import TaggedSource.Main
import TaggedSource.Proofs.AllOrNothing
import TaggedSource.Proofs.Balance
import TaggedSource.Proofs.Clean
import TaggedSource.Proofs.CommandLine
import TaggedSource.Proofs.Directive
import TaggedSource.Proofs.Document
import TaggedSource.Proofs.DryRun
import TaggedSource.Proofs.Forbidden
import TaggedSource.Proofs.Groups
import TaggedSource.Proofs.Identifier
import TaggedSource.Proofs.LineEndings
import TaggedSource.Proofs.LoopEnds
import TaggedSource.Proofs.MarkerLeads
import TaggedSource.Proofs.Overlap
import TaggedSource.Proofs.Parentheses
import TaggedSource.Proofs.Protection
import TaggedSource.Proofs.ReadBack
import TaggedSource.Proofs.Resilience
import TaggedSource.Proofs.Rewriting
import TaggedSource.Proofs.TokenLoops
import TaggedSource.Proofs.Untouched
