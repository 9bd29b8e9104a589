import Mannequin.Scalar.Binary64
import Mannequin.NameMap
import Mannequin.Error
import Mannequin.Location
import Mannequin.Json
import Mannequin.Json.Token
import Mannequin.Json.Reader
import Mannequin.Geometry.Mat4
import Mannequin.Field
import Mannequin.Frame
import Mannequin.Alias
import Mannequin.Length
import Mannequin.Profile
import Mannequin.Deformation
import Mannequin.Renaming.Groups
import Mannequin.Journal
import Mannequin.Skeleton.Assembly
import Mannequin.Skeleton.Table
import Mannequin.Blueprint.Reflection
import Mannequin.Blueprint.BoolShape
import Mannequin.Character.Bridge
import Mannequin.Character
import Mannequin.Kernel.Simulated
import Mannequin.Build
import Mannequin.Build.Groups
import Mannequin.Path
import Mannequin.Settings.File
import Mannequin.Log
import Mannequin.Proofs.NameMap
import Mannequin.Proofs.Items
import Mannequin.Proofs.Journal
import Mannequin.Proofs.Character.Linking
import Mannequin.Proofs.Renaming.Simultaneous
import Mannequin.Proofs.Renaming.Plan
import Mannequin.Proofs.Renaming.Replay
import Mannequin.Proofs.Renaming.Progress
import Mannequin.Proofs.Renaming.Verdict
import Mannequin.Proofs.Renaming.Fresh
import Mannequin.Proofs.Kernel.Building
import Mannequin.Proofs.Renaming.Grouping
import Mannequin.Proofs.Renaming.Regrouping
import Mannequin.Proofs.Build.Groups
import Mannequin.Proofs.Kernel.Custody
import Mannequin.Proofs.Build.Shaping
import Mannequin.Proofs.Build.Bridges
import Mannequin.Proofs.Build.Links
import Mannequin.Proofs.Kernel.Simulated
import Mannequin.Proofs.Build.Custody
import Mannequin.Proofs.Build.Asking
import Mannequin.Proofs.Build.Openings
import Mannequin.Proofs.Geometry.Reflection
import Mannequin.Proofs.Concur
import Mannequin.Proofs.Reading
import Mannequin.Proofs.Alias
import Mannequin.Proofs.Character.Reflection
import Mannequin.Proofs.Profile
import Mannequin.Proofs.Skeleton.Overlay
import Mannequin.Proofs.Skeleton.Assembly
import Mannequin.Proofs.Skeleton.Entries
import Mannequin.Proofs.Skeleton.Description
import Mannequin.Proofs.Skeleton
import Mannequin.Proofs.Skeleton.Parents
import Mannequin.Proofs.Skeleton.Forest
import Mannequin.Proofs.Skeleton.Order
import Mannequin.Proofs.Skeleton.Table
import Mannequin.Proofs.Skeleton.Flattening
import Mannequin.Proofs.Character.Resolution
import Mannequin.Proofs.Alias.Chains
import Mannequin.Proofs.Alias.Sources
import Mannequin.Proofs.Alias.Cycles
import Mannequin.Proofs.Character.Mirror
import Mannequin.Proofs.Character.References
import Mannequin.Proofs.Scalar.Ordered
import Mannequin.Proofs.Scalar.Finite
import Mannequin.Proofs.Fields
import Mannequin.Proofs.Character.Sizes
import Mannequin.Proofs.Blueprint.Sound
import Mannequin.Proofs.Character.Makeup
import Mannequin.Proofs.Character.Complete
import Mannequin.Proofs.Narrowing
import Mannequin.Proofs.Character.Strict
import Mannequin.Proofs.Character.Bridges
import Mannequin.Proofs.Build.Resolved
import Mannequin.Proofs.Build.Merging
import Mannequin.Proofs.Kernel.Asking
import Mannequin.Proofs.Kernel.Fresh
import Mannequin.Proofs.Kernel.Refusing
import Mannequin.Proofs.Build.Refusing
import Mannequin.Proofs.Deformation
import Mannequin.Proofs.Deformation.Neighbours
import Mannequin.Proofs.Deformation.Interpolation
import Mannequin.Proofs.Deformation.Bounds
import Mannequin.Proofs.Blueprint.Drawing
import Mannequin.Proofs.Scalar.Rounding
import Mannequin.Proofs.Scalar.Fraction
import Mannequin.Proofs.Deformation.Neutral
import Mannequin.Proofs.Build.Creating
import Mannequin.Proofs.Build.Neutral
import Mannequin.Proofs.Deformation.Sorting
import Mannequin.Proofs.Deformation.Reordering
import Mannequin.Proofs.Geometry.Basis
import Mannequin.Proofs.Character.Spanning
import Mannequin.Proofs.Located
import Mannequin.Proofs.Blueprint.Located
import Mannequin.Proofs.Character.Outlines
import Mannequin.Proofs.Words
import Mannequin.Proofs.Settings
import Mannequin.Proofs.Settings.Refusals
import Mannequin.Proofs.Skeleton.Side
import Mannequin.Proofs.Length
import Mannequin.Proofs.Character.Telling
