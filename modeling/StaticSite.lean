import StaticSite.Config.Hooks
import StaticSite.Config.Typed
import StaticSite.Disk.FileTree
import StaticSite.Main
import StaticSite.Proofs.SitePath.Relative
import StaticSite.Proofs.SitePath.Normal
import StaticSite.Proofs.SitePath.Shortest
import StaticSite.Proofs.Link.Outside
import StaticSite.Proofs.Link.Scheme
import StaticSite.Proofs.Page.Links
import StaticSite.Proofs.Config.Merge
import StaticSite.Proofs.Config.Inheritance
import StaticSite.Proofs.Config.Cycle
import StaticSite.Proofs.Markup.Attribute
import StaticSite.Proofs.Link.Characters
import StaticSite.Proofs.Markup.Rewriting
import StaticSite.Proofs.Document.Block
import StaticSite.Proofs.Markup.Fragment
import StaticSite.Proofs.Document.KeyLines
import StaticSite.Proofs.Document.Grouped
import StaticSite.Proofs.Document.Metadata
import StaticSite.Proofs.Document.Returns
import StaticSite.Proofs.Config.Inline
import StaticSite.Proofs.Link.Settled
import StaticSite.Proofs.Config.MergeLaws
import StaticSite.Proofs.Config.Registration
import StaticSite.Proofs.Config.Variables
import StaticSite.Proofs.Config.Fallback
import StaticSite.Proofs.Page.Title
import StaticSite.Proofs.Page.Url
import StaticSite.Proofs.Page.Collision
import StaticSite.Proofs.Number.Interval
import StaticSite.Proofs.Number.Shortest
import StaticSite.Proofs.Number.Spelling
import StaticSite.Proofs.Yaml.Plain
import StaticSite.Proofs.Config.Construction
import StaticSite.Proofs.Number.Rounding
import StaticSite.Proofs.Yaml.Read
import StaticSite.Proofs.Page.Reading
import StaticSite.Proofs.Link.Backslashes
import StaticSite.Proofs.Markup.Occurrences
import StaticSite.Proofs.Config.Lookups
import StaticSite.Proofs.SitePath.Respelled
import StaticSite.Proofs.Link.Grammar
import StaticSite.Proofs.SitePath.Reduced
