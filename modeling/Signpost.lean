import Signpost.Main
import Signpost.Json.Access
import Signpost.Source.ChangeFeed
import Signpost.Admin.Schedule
import Signpost.Api.Service
import Signpost.Store.RecordTable
import Signpost.Config.FileTree
import Signpost.Proofs.Redirection.Index
import Signpost.Proofs.Admin.Commit
import Signpost.Proofs.Admin.StateForm
import Signpost.Proofs.Redirection.Restore
import Signpost.Proofs.Admin.Step
import Signpost.Proofs.Admin.Publication
import Signpost.Proofs.Redirection.Batch
import Signpost.Proofs.Admin.Chronicle
import Signpost.Proofs.Admin.Books
import Signpost.Proofs.Admin.Serial
import Signpost.Proofs.Admin.Drawn
import Signpost.Proofs.Admin.Polling
import Signpost.Proofs.Admin.Enrollment
import Signpost.Proofs.Admin.Restart
import Signpost.Proofs.Admin.Rollback
import Signpost.Proofs.Admin.Milestones
import Signpost.Proofs.Admin.Schedule
import Signpost.Proofs.Routing.Memo
import Signpost.Proofs.Routing.LookUps
import Signpost.Proofs.Routing.Mirror
import Signpost.Proofs.Store.Holdings
import Signpost.Proofs.Source.Persistent
import Signpost.Proofs.Source.Bulk
import Signpost.Proofs.Source.Coherence
import Signpost.Proofs.Resolver.Attempt
import Signpost.Proofs.Resolver.Search
import Signpost.Proofs.Resolver.Union
import Signpost.Proofs.Resolver.Agreement
import Signpost.Proofs.Store.Content
import Signpost.Proofs.Source.Announcement
import Signpost.Proofs.Source.Visits
import Signpost.Proofs.Source.Following
import Signpost.Proofs.Source.Merging
import Signpost.Proofs.Source.Answering
import Signpost.Proofs.Resolver.Shadowing
import Signpost.Proofs.Subscription.Fanout
import Signpost.Proofs.Store.Database
import Signpost.Proofs.Store.Writes
import Signpost.Proofs.Definition.Tags
import Signpost.Proofs.Routing.Overlap
import Signpost.Proofs.Source.Overlap
import Signpost.Proofs.Catalog.Runs
import Signpost.Proofs.Catalog.Listing
import Signpost.Proofs.Api.Frame
import Signpost.Proofs.Redirection.Removal
import Signpost.Proofs.Redirection.Order
import Signpost.Proofs.Source.Reconciliation
import Signpost.Proofs.Query.Reading
import Signpost.Proofs.Config.Placeholder
import Signpost.Proofs.Catalog.Refresh
import Signpost.Proofs.Filter.Expr
import Signpost.Proofs.Json.Agreement
import Signpost.Proofs.Cache
import Signpost.Proofs.Utf8
