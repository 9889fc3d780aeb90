import Grove.Backend.Sample
import Grove.Main
import Grove.Path.Explicit
import Grove.Proofs.Store.Change
import Grove.Proofs.Result
import Grove.Session.Basic
import Grove.Proofs.Tree.Limits
import Grove.Proofs.Store.Limits
import Grove.Proofs.Workspace.Run
import Grove.Proofs.Workspace.Ownership
import Grove.Proofs.Tree.Update
import Grove.Proofs.Workspace.Refinement
import Grove.Proofs.Number.ReadBack
import Grove.Proofs.Number.Numeral
import Grove.Proofs.Json.Token
import Grove.Proofs.Json.Number
import Grove.Proofs.Tree.Plain
import Grove.Proofs.Json.Document
import Grove.Proofs.Backend.Basic
import Grove.Proofs.Backend.Json
import Grove.Proofs.Yaml.Cursor
import Grove.Proofs.Yaml.Plain
import Grove.Proofs.Yaml.Double
import Grove.Proofs.Yaml.Single
import Grove.Proofs.Yaml.Scalar
import Grove.Proofs.Number.Reading
import Grove.Proofs.Yaml.Number
import Grove.Proofs.Yaml.Token
import Grove.Proofs.Yaml.Word
import Grove.Proofs.Yaml.Outline
import Grove.Proofs.Yaml.Place
import Grove.Proofs.Yaml.Document
import Grove.Proofs.Yaml.Node
import Grove.Proofs.Yaml.Filling
import Grove.Proofs.Yaml.Assembly
import Grove.Proofs.Yaml.RoundTrip
import Grove.Proofs.Backend.Yaml
import Grove.Proofs.Path.Address
import Grove.Proofs.Store.Resolution
import Grove.Proofs.Workspace.Loaded
import Grove.Proofs.Workspace.ReadBack
import Grove.Proofs.Store.Persistence
import Grove.Proofs.Workspace.Lifetime
import Grove.Proofs.Document.Containment
import Grove.Proofs.Document.Fault
import Grove.Proofs.Document.Conversion
import Grove.Proofs.Storage.Location
import Grove.Proofs.Registry.Selection
import Grove.Proofs.Registry.Listing
import Grove.Proofs.Tree.Refusal
import Grove.Proofs.Registry.Lenient
import Grove.Proofs.Registry.Sniffing
import Grove.Proofs.Workspace.Totality
import Grove.Proofs.Store.Clearing
import Grove.Proofs.Workspace.Unloading
import Grove.Proofs.Store.Diagnosis
import Grove.Proofs.Registry.Strictness
import Grove.Proofs.Document.Grounding
import Grove.Proofs.Json.Grounding
import Grove.Proofs.Yaml.Grounding
import Grove.Proofs.Registry.Loading
import Grove.Proofs.Text.Split
import Grove.Proofs.Path.Dotted
import Grove.Proofs.Workspace.Views
import Grove.Proofs.Workspace.Growth
import Grove.Proofs.Workspace.Commutation
import Grove.Proofs.Workspace.Walk
import Grove.Proofs.Workspace.Setting
import Grove.Proofs.Workspace.Effect
import Grove.Proofs.Workspace.Copying
import Grove.Proofs.Number.Nearest
import Grove.Proofs.Tree.Merging
import Grove.Proofs.Document.NormalForm
import Grove.Proofs.Workspace.Conversion
import Grove.Proofs.Workspace.Addressing
import Grove.Proofs.Path.Template
import Grove.Proofs.Registry.Directory
import Grove.Proofs.Registry.Reading
import Grove.Proofs.Registry.Order
import Grove.Proofs.Workspace.Gap
import Grove.Proofs.Session.Base
