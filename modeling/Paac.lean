import Paac.Board.Matrix
import Paac.Bridge.Bind
import Paac.Bridge.Edges
import Paac.Bridge.Extract
import Paac.Bridge.Kinds
import Paac.Bridge.Padding
import Paac.Bridge.Reclassify
import Paac.Catalog.ArgPaths
import Paac.Catalog.Arguments
import Paac.Catalog.Lookup
import Paac.Catalog.Resources
import Paac.Catalog.UnknownTool
import Paac.Cli.Commands
import Paac.Cli.Frame
import Paac.Cli.Live
import Paac.Cli.Release
import Paac.Cli.Runs
import Paac.Core.AttrCalls
import Paac.Core.Builder
import Paac.Core.Builtins
import Paac.Core.Context
import Paac.Core.Decision
import Paac.Core.Entities
import Paac.Core.EntitySet
import Paac.Core.Evaluate
import Paac.Core.Hierarchy
import Paac.Core.HotCache
import Paac.Core.Normalised
import Paac.Core.Reference
import Paac.Core.Request
import Paac.Core.RoundTrip
import Paac.Core.Serde
import Paac.Gateway.Server
import Paac.Identity.Cache
import Paac.Identity.GroupDrafts
import Paac.Identity.History
import Paac.Identity.Jwt
import Paac.Identity.Ldap
import Paac.Identity.Saml
import Paac.Identity.Snapshot
import Paac.Library.Cedar.Diagnostics
import Paac.Library.Cedar.Engine
import Paac.Library.Cedar.Literals
import Paac.Library.Cedar.Printing
import Paac.Library.Cedar.Semantics
import Paac.Library.Cedar.Sources
import Paac.Library.Cedar.Spliced
import Paac.Library.Cedar.Strings
import Paac.Library.Cedar.Syntax
import Paac.Library.Cedar.Typing
import Paac.Library.Concurrent
import Paac.Library.Dn
import Paac.Library.Effect
import Paac.Library.EventStream
import Paac.Library.FirstMatch
import Paac.Library.Hex
import Paac.Library.IndexMap
import Paac.Library.Joined
import Paac.Library.Json
import Paac.Library.JsonLayout
import Paac.Library.JsonLines
import Paac.Library.JsonMeaning
import Paac.Library.JsonPretty
import Paac.Library.JsonPrinted
import Paac.Library.JsonRaw
import Paac.Library.JsonReader
import Paac.Library.JsonSplice
import Paac.Library.Log
import Paac.Library.Parts
import Paac.Library.Paths
import Paac.Library.Run
import Paac.Library.Search
import Paac.Library.Serde
import Paac.Library.Table
import Paac.Library.Text
import Paac.Library.Tokens
import Paac.Library.Total
import Paac.Library.Triple
import Paac.Library.Words
import Paac.Library.Xml
import Paac.Policy.Accept
import Paac.Policy.Attributes
import Paac.Policy.Compiled
import Paac.Policy.Compose
import Paac.Policy.Diff
import Paac.Policy.Drafts
import Paac.Policy.Dsl
import Paac.Policy.Evaluates
import Paac.Policy.Evidence
import Paac.Policy.Fidelity
import Paac.Policy.Files
import Paac.Policy.FreeContext
import Paac.Policy.Generated
import Paac.Policy.GroupMembers
import Paac.Policy.Immutable
import Paac.Policy.Interleaved
import Paac.Policy.Kept
import Paac.Policy.Lifecycle
import Paac.Policy.Meaning
import Paac.Policy.Names
import Paac.Policy.Restricting
import Paac.Policy.Schema
import Paac.Policy.Sign
import Paac.Policy.Store
import Paac.Policy.Translate
import Paac.Policy.Validate
import Paac.Policy.Works
import Paac.Policy.Written
import Paac.Proxy.AllOrNothing
import Paac.Proxy.Attribution
import Paac.Proxy.Audit
import Paac.Proxy.Auth
import Paac.Proxy.Calls
import Paac.Proxy.Chat
import Paac.Proxy.Config
import Paac.Proxy.Counters
import Paac.Proxy.Delegation
import Paac.Proxy.Expiry
import Paac.Proxy.Forwarded
import Paac.Proxy.OpenAi
import Paac.Proxy.PromptGate
import Paac.Proxy.ReplyFrame
import Paac.Proxy.Routes
import Paac.Proxy.SignedOnly
import Paac.Proxy.Startup
import Paac.Proxy.State
import Paac.Proxy.ToolGate
import Paac.Proxy.Transparent
import Paac.Proxy.Turns
import Paac.Store.Database
import Paac.Store.Writer
import Paac.Suggest.Appends
import Paac.Suggest.Audit
import Paac.Suggest.Explain
import Paac.Suggest.Suggestions
