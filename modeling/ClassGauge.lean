import ClassGauge.Main
import ClassGauge.Syntax.Walk
import ClassGauge.Proofs.Registry
import ClassGauge.Proofs.Ancestry
import ClassGauge.Proofs.Analysis
import ClassGauge.Proofs.Forest
import ClassGauge.Proofs.Locality
import ClassGauge.Proofs.MoreFiles
import ClassGauge.Proofs.FileOrder
import ClassGauge.Proofs.Json.Values
import ClassGauge.Proofs.Json.Records
import ClassGauge.Proofs.Overlap
import ClassGauge.Proofs.Disk.Tree
import ClassGauge.Proofs.Discovery
import ClassGauge.Proofs.FewerFiles
import ClassGauge.Proofs.Project
import ClassGauge.Proofs.Disk.PathText
import ClassGauge.Proofs.Disk.Following
import ClassGauge.Proofs.SettingsSearch
import ClassGauge.Proofs.Disk.Occupant
import ClassGauge.Proofs.Disk.Writing
import ClassGauge.Proofs.Disk.Differing
import ClassGauge.Proofs.RunSettings
import ClassGauge.Proofs.SameSources
import ClassGauge.Proofs.Effects
import ClassGauge.Proofs.Repetition
import ClassGauge.Proofs.Overrides
import ClassGauge.Proofs.Syntax.Preorder
import ClassGauge.Proofs.Cohesion
import ClassGauge.Proofs.Nesting
import ClassGauge.Proofs.Syntax.Methods
import ClassGauge.Proofs.Overloads
import ClassGauge.Proofs.Contents
import ClassGauge.Proofs.Attributes
import ClassGauge.Proofs.Anonymous
import ClassGauge.Proofs.Words
import ClassGauge.Proofs.Bounds
import ClassGauge.Proofs.Tally
import ClassGauge.Proofs.Assessment
import ClassGauge.Proofs.Ranking
import ClassGauge.Proofs.Changes
import ClassGauge.Proofs.Summary
import ClassGauge.Proofs.Patterns
import ClassGauge.Proofs.UpwardSearch
import ClassGauge.Proofs.PendingNodes
import ClassGauge.Proofs.Syntax.Wrapping
