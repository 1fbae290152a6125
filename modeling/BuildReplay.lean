import BuildReplay.Android.Model
import BuildReplay.Android.Project
import BuildReplay.Android.Report
import BuildReplay.Android.Shapes
import BuildReplay.Android.Variants
import BuildReplay.BuildFile
import BuildReplay.Callback
import BuildReplay.Cli.Arguments
import BuildReplay.Cli.Run
import BuildReplay.Coercion
import BuildReplay.Config
import BuildReplay.Decimal.Double
import BuildReplay.Decimal.Layout
import BuildReplay.Decimal.Shortest
import BuildReplay.Dictionary
import BuildReplay.Document.DateTime
import BuildReplay.Document.Display
import BuildReplay.Document.Draft
import BuildReplay.Document.Quote
import BuildReplay.Document.Reader
import BuildReplay.Document.Scalar
import BuildReplay.Document.Value
import BuildReplay.Error
import BuildReplay.FileTree
import BuildReplay.Host
import BuildReplay.Host.Act
import BuildReplay.Host.Container
import BuildReplay.Json.Basic
import BuildReplay.Json.Reader
import BuildReplay.Lab.Bench
import BuildReplay.Lab.Host
import BuildReplay.Lab.Project
import BuildReplay.Lab.Shapes
import BuildReplay.Lab.World
import BuildReplay.Lens
import BuildReplay.Live
import BuildReplay.Main
import BuildReplay.Mapper.Argument
import BuildReplay.Mapper.Step
import BuildReplay.Mapper.Walk
import BuildReplay.Path
import BuildReplay.Project
import BuildReplay.Proofs.Act
import BuildReplay.Proofs.Dictionary
import BuildReplay.Proofs.Strictness.Pruning
import BuildReplay.Proofs.Strictness.Step
import BuildReplay.Proofs.Walk
import BuildReplay.Registry
import BuildReplay.Scope
import BuildReplay.Shape
import BuildReplay.Shape.Cache
import BuildReplay.Shape.Typed
import BuildReplay.Text.Blank
import BuildReplay.Text.Capital
import BuildReplay.Text.Hidden
import BuildReplay.Text.Quoted
import BuildReplay.ValueType
import BuildReplay.Proofs.Shape
import BuildReplay.Proofs.Declared
import BuildReplay.Proofs.Android.Outline
import BuildReplay.Proofs.Android.Split
import BuildReplay.Proofs.Effects
import BuildReplay.Proofs.Obedience
import BuildReplay.Proofs.Strictness.Walk
import BuildReplay.Proofs.Within
import BuildReplay.Proofs.Strictness.Project
import BuildReplay.Proofs.Course
import BuildReplay.Proofs.Typing
import BuildReplay.Proofs.Agreement
import BuildReplay.Proofs.Refusal
import BuildReplay.Proofs.Android.Agreement
import BuildReplay.Proofs.Android.Course
import BuildReplay.Proofs.Android.Refusal
import BuildReplay.Proofs.Android.HostErrors
import BuildReplay.Proofs.Agenda
import BuildReplay.Proofs.Enclosure
import BuildReplay.Proofs.Balance
import BuildReplay.Proofs.Lens
import BuildReplay.Proofs.Track
import BuildReplay.Proofs.Literal
import BuildReplay.Proofs.Plain
import BuildReplay.Proofs.Cells
import BuildReplay.Proofs.Android.Cells
import BuildReplay.Proofs.Elements
import BuildReplay.Proofs.Android.Contents
import BuildReplay.Proofs.Android.KeyOrder
import BuildReplay.Proofs.Alone
import BuildReplay.Proofs.Firing
import BuildReplay.Proofs.Android.Variants
import BuildReplay.Proofs.Position
import BuildReplay.Proofs.Android.Position
import BuildReplay.Proofs.Android.Signing
import BuildReplay.Proofs.Android.Growth
import BuildReplay.Proofs.Android.History
import BuildReplay.Proofs.Overwriting
import BuildReplay.Proofs.Repeatable
import BuildReplay.Proofs.Android.Repeatable
import BuildReplay.Proofs.Android.Plugins
import BuildReplay.Proofs.Android.VariantNames
import BuildReplay.Proofs.Relocation.Mirror
import BuildReplay.Proofs.Relocation.Step
import BuildReplay.Proofs.Relocation.Walk
import BuildReplay.Proofs.Relocation.Declared
import BuildReplay.Proofs.Relocation.Model
import BuildReplay.Proofs.Relocation.Project
import BuildReplay.Proofs.Spelling
import BuildReplay.Proofs.Android.Spelling
import BuildReplay.Proofs.Supply
import BuildReplay.Proofs.Android.Names
import BuildReplay.Proofs.Resolution
import BuildReplay.Proofs.Overloads
import BuildReplay.Proofs.Fields
import BuildReplay.Proofs.Recording
import BuildReplay.Proofs.Routing
import BuildReplay.Proofs.Dispatch
import BuildReplay.Proofs.Android.Elements
import BuildReplay.Proofs.Android.InitWith
import BuildReplay.Proofs.Placement.Step
import BuildReplay.Proofs.Placement.Walk
import BuildReplay.Proofs.Accessor
import BuildReplay.Proofs.Alternatives
import BuildReplay.Proofs.Android.Attributes
import BuildReplay.Proofs.Filling
import BuildReplay.Proofs.Coercion
import BuildReplay.Proofs.Placement.Fired
import BuildReplay.Proofs.Android.SigningReferences
import BuildReplay.Proofs.Android.SigningOrigin
import BuildReplay.Proofs.Lifting
import BuildReplay.Proofs.Registration
import BuildReplay.Proofs.Lookup
import BuildReplay.Proofs.Caching.History
import BuildReplay.Proofs.Caching.Transparency
import BuildReplay.Proofs.Path
import BuildReplay.Proofs.FileTree
import BuildReplay.Proofs.Ancestors
import BuildReplay.Proofs.BuildFile
import BuildReplay.Proofs.Way
import BuildReplay.Proofs.Discovery
import BuildReplay.Proofs.Location
import BuildReplay.Proofs.Edits
import BuildReplay.Proofs.Verdicts
import BuildReplay.Proofs.Frames
import BuildReplay.Proofs.Occurrences
import BuildReplay.Proofs.Registry
import BuildReplay.Proofs.Container
import BuildReplay.Proofs.Handles
import BuildReplay.Proofs.Sharing
