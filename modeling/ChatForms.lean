import ChatForms.Text.Lower
import ChatForms.StringMap
import ChatForms.Xml.Escape
import ChatForms.Markup
import ChatForms.Attributes
import ChatForms.Build
import ChatForms.Presentation
import ChatForms.Markdown
import ChatForms.TreeView
import ChatForms.Inspection
import ChatForms.Registry
import ChatForms.Double
import ChatForms.Settings.KeyPath
import ChatForms.Toml.Quoted
import ChatForms.Toml.Scalar
import ChatForms.Toml.Document
import ChatForms.Settings.Basic
import ChatForms.Settings.Layers
import ChatForms.Command.Arguments
import ChatForms.Command.Directory
import ChatForms.Command.Perform
import ChatForms.Command.Run
import ChatForms.Main
import ChatForms.Proofs.Text.Lower
import ChatForms.Proofs.Xml.Escape
import ChatForms.Proofs.Xml.Characters
import ChatForms.Proofs.Xml.Token
import ChatForms.Proofs.Markup.All
import ChatForms.Proofs.Markup.Spelling
import ChatForms.Proofs.Markup.Reading
import ChatForms.Proofs.Markup.Runs
import ChatForms.Proofs.Markup.Tidy
import ChatForms.Proofs.Tree
import ChatForms.Proofs.Document.Arena
import ChatForms.Proofs.Build.Growth
import ChatForms.Proofs.StringMap
import ChatForms.Proofs.Attributes
import ChatForms.Proofs.Document.Spaces
import ChatForms.Proofs.Build.Validity
import ChatForms.Proofs.Pattern
import ChatForms.Proofs.Presentation.Group
import ChatForms.Proofs.Recognition
import ChatForms.Proofs.Presentation.Outline
import ChatForms.Proofs.Build.Tidiness
import ChatForms.Proofs.Presentation.Steadiness
import ChatForms.Proofs.Presentation.Rebuild
import ChatForms.Proofs.Presentation.RoundTrip
import ChatForms.Proofs.Presentation.Reading
import ChatForms.Proofs.Containment
import ChatForms.Proofs.Contract
import ChatForms.Proofs.Document.Preorder
import ChatForms.Proofs.Build.Walk
import ChatForms.Proofs.Build.Respelling
import ChatForms.Proofs.Build.Requirements
import ChatForms.Proofs.Build.Authored
import ChatForms.Proofs.Presentation.Marks
import ChatForms.Proofs.Build.Loosening
import ChatForms.Proofs.Document.Spine
import ChatForms.Proofs.Build.Siblings
import ChatForms.Proofs.Document.Soundness
import ChatForms.Proofs.Document.Queries
import ChatForms.Proofs.Build.Stages
import ChatForms.Proofs.Markup.Gathering
import ChatForms.Proofs.Presentation.Canonical
import ChatForms.Proofs.Markup.Retouching
import ChatForms.Proofs.Build.Lockstep
import ChatForms.Proofs.Build.Rearranging
import ChatForms.Proofs.Build.Defaults
import ChatForms.Proofs.Json
import ChatForms.Proofs.Inspection
import ChatForms.Proofs.Command.Directory
import ChatForms.Proofs.Command.Agreement
import ChatForms.Proofs.Build.Wording
import ChatForms.Proofs.Build.Unbroken
import ChatForms.Proofs.Markdown
import ChatForms.Proofs.TreeView
import ChatForms.Proofs.Build.Intervals
import ChatForms.Proofs.Text.Ascii
import ChatForms.Proofs.Collection
import ChatForms.Proofs.Registry
import ChatForms.Proofs.Registry.Support
import ChatForms.Proofs.Settings.Leaf
import ChatForms.Proofs.Settings.Layers
import ChatForms.Proofs.Pattern.Division
import ChatForms.Proofs.Xml.Entities
