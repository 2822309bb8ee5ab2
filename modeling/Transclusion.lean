import Transclusion.Main
import Transclusion.Proofs.Outline.Lines
import Transclusion.Proofs.Outline.RoundTrip
import Transclusion.Proofs.Cache.Recency
import Transclusion.Proofs.Cache.Sizes
import Transclusion.Proofs.Expansion.Plain
import Transclusion.Proofs.Expansion.Ancestors
import Transclusion.Proofs.Expansion.Locality
import Transclusion.Proofs.Desk.Invalidation
import Transclusion.Proofs.Directive.Identity
import Transclusion.Proofs.Expansion.Enclosing
import Transclusion.Proofs.Expansion.EventLoop
import Transclusion.Proofs.Outline.Nesting
import Transclusion.Proofs.Outline.Subtrees
import Transclusion.Proofs.Desk.Fetching
import Transclusion.Proofs.Expansion.Findings
import Transclusion.Proofs.Service.Sessions
import Transclusion.Proofs.Desk.Atomicity
import Transclusion.Proofs.Watch.Vigils
import Transclusion.Proofs.Service.Confinement
import Transclusion.Proofs.Outline.Placing
import Transclusion.Proofs.Directive.Printing
import Transclusion.Proofs.Link.Printing
import Transclusion.Proofs.Locate.Navigation
import Transclusion.Proofs.Cache.Invalidation
import Transclusion.Proofs.Watch.Deliveries
import Transclusion.Proofs.Outline.Blocks
import Transclusion.Proofs.Files.Search
import Transclusion.Proofs.Outline.Walks
import Transclusion.Proofs.Expansion.Chapters
import Transclusion.Proofs.Expansion.Limits
