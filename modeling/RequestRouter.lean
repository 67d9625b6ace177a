import RequestRouter.CommandLine.Arguments
import RequestRouter.CommandLine.Command
import RequestRouter.CommandLine.Run
import RequestRouter.Config
import RequestRouter.Data.Json
import RequestRouter.Data.Json.Printer
import RequestRouter.Data.Node
import RequestRouter.Data.Yaml
import RequestRouter.Data.Yaml.Scalar
import RequestRouter.Data.Yaml.Source
import RequestRouter.Data.Yaml.Token
import RequestRouter.Error
import RequestRouter.Handler
import RequestRouter.Http.Field
import RequestRouter.Http.Message
import RequestRouter.Http.Uri
import RequestRouter.Main
import RequestRouter.Path
import RequestRouter.Pattern.Cache
import RequestRouter.Pattern.Span
import RequestRouter.Pattern.Template
import RequestRouter.Pattern.Validator
import RequestRouter.Proofs.Dispatch.AllowList
import RequestRouter.Proofs.Dispatch.Fallbacks
import RequestRouter.Proofs.Dispatch.FlatScan
import RequestRouter.Proofs.Dispatch.MatcherOrder
import RequestRouter.Proofs.Dispatch.MethodMismatch
import RequestRouter.Proofs.Dispatch.Methods
import RequestRouter.Proofs.Dispatch.Retry
import RequestRouter.Proofs.Dispatch.Site
import RequestRouter.Proofs.Http.Components
import RequestRouter.Proofs.Http.Targets
import RequestRouter.Proofs.Path.Canonical
import RequestRouter.Proofs.Path.Clean
import RequestRouter.Proofs.Path.Wire
import RequestRouter.Proofs.Pattern.Braces
import RequestRouter.Proofs.Pattern.Cached
import RequestRouter.Proofs.Pattern.Compiled
import RequestRouter.Proofs.Pattern.Domain
import RequestRouter.Proofs.Pattern.FinalSlash
import RequestRouter.Proofs.Pattern.Grammar
import RequestRouter.Proofs.Pattern.Inverse
import RequestRouter.Proofs.Pattern.Language
import RequestRouter.Proofs.Pattern.Layout
import RequestRouter.Proofs.Pattern.Literal
import RequestRouter.Proofs.Pattern.OptionalSlash
import RequestRouter.Proofs.Pattern.StrictSlash
import RequestRouter.Proofs.Pattern.Suffix
import RequestRouter.Proofs.Pattern.Unique
import RequestRouter.Proofs.Pattern.Whole
import RequestRouter.Proofs.Regex.Ending
import RequestRouter.Proofs.Regex.Framing
import RequestRouter.Proofs.Regex.Marks
import RequestRouter.Proofs.Regex.Parts
import RequestRouter.Proofs.Regex.Search
import RequestRouter.Proofs.Regex.Shift
import RequestRouter.Proofs.Regex.Spans
import RequestRouter.Proofs.Regex.Spelling
import RequestRouter.Proofs.Regex.Words
import RequestRouter.Proofs.Router.Bonds
import RequestRouter.Proofs.Router.Building
import RequestRouter.Proofs.Router.Caching
import RequestRouter.Proofs.Router.Calls
import RequestRouter.Proofs.Router.Cleaning
import RequestRouter.Proofs.Router.Components
import RequestRouter.Proofs.Router.Conditions
import RequestRouter.Proofs.Router.Errors
import RequestRouter.Proofs.Router.Inheritance
import RequestRouter.Proofs.Router.Leftovers
import RequestRouter.Proofs.Router.Locations
import RequestRouter.Proofs.Router.Loops
import RequestRouter.Proofs.Router.Mounts
import RequestRouter.Proofs.Router.Names
import RequestRouter.Proofs.Router.Origins
import RequestRouter.Proofs.Router.Ports
import RequestRouter.Proofs.Router.Presence
import RequestRouter.Proofs.Router.Queries
import RequestRouter.Proofs.Router.Redirects
import RequestRouter.Proofs.Router.RoundTrip
import RequestRouter.Proofs.Router.Schemes
import RequestRouter.Proofs.Router.Sessions
import RequestRouter.Proofs.Router.SlashTargets
import RequestRouter.Proofs.Router.Supply
import RequestRouter.Proofs.Router.Switches
import RequestRouter.Proofs.Router.Templates
import RequestRouter.Proofs.Router.Transforms
import RequestRouter.Proofs.Router.Variables
import RequestRouter.Proofs.Router.Walks
import RequestRouter.Proofs.Router.Ways
import RequestRouter.Proofs.Router.Wrapping
import RequestRouter.Proofs.Table.Mirror
import RequestRouter.Proofs.Table.Regular
import RequestRouter.Proofs.Table.Reports
import RequestRouter.Proofs.Table.Steps
import RequestRouter.Proofs.Text.Coding
import RequestRouter.Proofs.Text.Utf8
import RequestRouter.Regex.Basic
import RequestRouter.Regex.CharSet
import RequestRouter.Regex.Class
import RequestRouter.Regex.Escape
import RequestRouter.Regex.Expr
import RequestRouter.Regex.Reader
import RequestRouter.Regex.Search
import RequestRouter.Regex.Token
import RequestRouter.Regex.Weight
import RequestRouter.Report
import RequestRouter.Router.Dispatch
import RequestRouter.Router.Matcher
import RequestRouter.Router.Route
import RequestRouter.Router.Serve
import RequestRouter.Router.Shown
import RequestRouter.Router.Tree
import RequestRouter.Router.Url
import RequestRouter.Router.Vars
import RequestRouter.Router.View
import RequestRouter.Router.Walk
import RequestRouter.Router.Wraps
import RequestRouter.Table.Basic
import RequestRouter.Table.Install
import RequestRouter.Table.Reader
import RequestRouter.Text.CaseFolding
import RequestRouter.Text.Classes
import RequestRouter.Text.Coding
import RequestRouter.Text.Shown
import RequestRouter.Text.Utf8
