import TemplateAtlas.Main
import TemplateAtlas.Proofs.Builds
import TemplateAtlas.Proofs.Corpus.Filter
import TemplateAtlas.Proofs.Graph.Workspace
import TemplateAtlas.Proofs.Notification
import TemplateAtlas.Proofs.Template.Calls
import TemplateAtlas.Proofs.Template.Declarations
import TemplateAtlas.Proofs.Template.Edit
import TemplateAtlas.Proofs.Report.Diagnostic
import TemplateAtlas.Proofs.Drawing.Cycles
import TemplateAtlas.Proofs.Report.CallSites
import TemplateAtlas.Proofs.Report.Endings
import TemplateAtlas.Proofs.Template.Opening
import TemplateAtlas.Proofs.Drawing.Clusters
import TemplateAtlas.Proofs.Corpus.Order
import TemplateAtlas.Proofs.Freshness
import TemplateAtlas.Proofs.Graph.Shape
import TemplateAtlas.Proofs.Report.Cycles
import TemplateAtlas.Proofs.Report.Chains
import TemplateAtlas.Proofs.Graph.Quotient
import TemplateAtlas.Proofs.Graph.Spelling
import TemplateAtlas.Proofs.Graph.Referrer
import TemplateAtlas.Proofs.Report.Hubs
import TemplateAtlas.Proofs.Report.Listing
import TemplateAtlas.Proofs.Report.Usage
import TemplateAtlas.Proofs.Template.Repositories
import TemplateAtlas.Proofs.Graph.Aliases
import TemplateAtlas.Proofs.Drawing.TreeText
import TemplateAtlas.Proofs.Report.ParameterTable
import TemplateAtlas.Proofs.Template.MapForm
import TemplateAtlas.Proofs.Template.Spellings
import TemplateAtlas.Proofs.Graph.Resolver
