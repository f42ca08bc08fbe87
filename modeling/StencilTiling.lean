import StencilTiling.Fault
import StencilTiling.Arith
import StencilTiling.Code.Expr
import StencilTiling.Ratio
import StencilTiling.Affine
import StencilTiling.Size
import StencilTiling.Window
import StencilTiling.ElemType
import StencilTiling.Text.Blank
import StencilTiling.Text.Integer
import StencilTiling.Text.Double
import StencilTiling.Text.Kilobytes
import StencilTiling.Environment
import StencilTiling.Diagnostics
import StencilTiling.Numbering
import StencilTiling.Extent
import StencilTiling.Geometry.Expr
import StencilTiling.Geometry.Table
import StencilTiling.Access
import StencilTiling.Granularity
import StencilTiling.Kernel.Error
import StencilTiling.Kernel.Annotation
import StencilTiling.Kernel.Basic
import StencilTiling.Kernel.Build
import StencilTiling.Kernel.Navigate
import StencilTiling.Kernel.Validate
import StencilTiling.Kernel.ControlParams
import StencilTiling.Device.Basic
import StencilTiling.Device.Property
import StencilTiling.Device.Draft
import StencilTiling.Description.Value
import StencilTiling.Description.Graph
import StencilTiling.Description.Build
import StencilTiling.Host.Tree
import StencilTiling.Text.Octets
import StencilTiling.Host.Basic
import StencilTiling.Shell.Script
import StencilTiling.Analysis.Error
import StencilTiling.Session.Error
import StencilTiling.Analysis.Config
import StencilTiling.Session.Options
import StencilTiling.Session.Programs
import StencilTiling.Session.Outputs
import StencilTiling.Analysis.AccessChoice
import StencilTiling.Analysis.Plan
import StencilTiling.Analysis.Budget
import StencilTiling.Analysis.Coordinates
import StencilTiling.Analysis.Cycles
import StencilTiling.Analysis.Order
import StencilTiling.Analysis.Report
import StencilTiling.Analysis.Slots
import StencilTiling.Analysis.Tiles
import StencilTiling.Analysis.Run
import StencilTiling.Code.Program
import StencilTiling.Code.Emit
import StencilTiling.Device.Description
import StencilTiling.Session.Compile
import StencilTiling.CommandLine
import StencilTiling.Shell.Job
import StencilTiling.Shell.Condition
import StencilTiling.Shell.Arith
import StencilTiling.Shell.Pattern
import StencilTiling.Shell.Reader
import StencilTiling.Shell.Expand
import StencilTiling.Shell.Print
import StencilTiling.Shell.Signal
import StencilTiling.Shell.Builtins
import StencilTiling.Shell.Grammar
import StencilTiling.Shell.Usage
import StencilTiling.Shell.Files
import StencilTiling.Shell.LinePattern
import StencilTiling.Shell.Filters
import StencilTiling.Shell.LineEditor
import StencilTiling.Shell.Folders
import StencilTiling.Shell.Tools
import StencilTiling.Shell.Redirection
import StencilTiling.Shell.Run
import StencilTiling.Shell.Launch
import StencilTiling.Main
import StencilTiling.Proofs.Arith
import StencilTiling.Proofs.Pointwise
import StencilTiling.Proofs.Geometry.Denotation
import StencilTiling.Proofs.Geometry.Cut
import StencilTiling.Proofs.Geometry.Placement
import StencilTiling.Proofs.Kernel.Arena
import StencilTiling.Proofs.Kernel.Construction
import StencilTiling.Proofs.Analysis.Order
import StencilTiling.Proofs.Kernel.Validity
import StencilTiling.Proofs.Analysis.DataOrder
import StencilTiling.Proofs.Analysis.Pass
import StencilTiling.Proofs.Analysis.Tiles
import StencilTiling.Proofs.Analysis.Grains
import StencilTiling.Proofs.Analysis.Cycles
import StencilTiling.Proofs.Analysis.Slots
import StencilTiling.Proofs.Analysis.Plan
import StencilTiling.Proofs.Analysis.Run
import StencilTiling.Proofs.Analysis.Parts
import StencilTiling.Proofs.Analysis.Slices
import StencilTiling.Proofs.Analysis.Reads
import StencilTiling.Proofs.Analysis.Slots
import StencilTiling.Proofs.Analysis.LinePipeline
import StencilTiling.Proofs.Analysis.Halos
import StencilTiling.Proofs.Analysis.Acyclic
import StencilTiling.Proofs.Analysis.Budget
import StencilTiling.Proofs.Analysis.Failures
import StencilTiling.Proofs.Code.Body
import StencilTiling.Proofs.Analysis.Buffers
import StencilTiling.Proofs.Code.Grammar
import StencilTiling.Proofs.Code.Printing
import StencilTiling.Proofs.Geometry.Rendering
import StencilTiling.Proofs.Analysis.EmittedCoordinates
import StencilTiling.Proofs.Analysis.Outcomes
import StencilTiling.Proofs.Code.Launch
import StencilTiling.Proofs.Analysis.WorkDistribution
import StencilTiling.Proofs.Kernel.ControlParams
import StencilTiling.Proofs.Description.Build
import StencilTiling.Proofs.Code.Scope
import StencilTiling.Proofs.Analysis.Declarations
import StencilTiling.Proofs.Analysis.Feasibility
import StencilTiling.Proofs.Analysis.History
import StencilTiling.Proofs.Kernel.Assembly
import StencilTiling.Proofs.Code.Words
import StencilTiling.Proofs.Analysis.Hygiene
import StencilTiling.Proofs.Analysis.LeastOrder
import StencilTiling.Proofs.Host.Tree
import StencilTiling.Proofs.Host.Footprint
import StencilTiling.Proofs.Session.Outputs
import StencilTiling.Proofs.Session.Registry
import StencilTiling.Proofs.Session.Handles
import StencilTiling.Proofs.Session.Staging
import StencilTiling.Proofs.Session.AllOrNothing
import StencilTiling.Proofs.Session.Paths
import StencilTiling.Proofs.Kernel.ParamFlow
import StencilTiling.Proofs.Analysis.LeastGrains
import StencilTiling.Proofs.Analysis.LeastSchedule
import StencilTiling.Proofs.Analysis.SweepEquations
import StencilTiling.Proofs.Analysis.SweepOrder
import StencilTiling.Proofs.Analysis.Fitting
import StencilTiling.Proofs.Analysis.MoreMemory
import StencilTiling.Proofs.Kernel.Stages
import StencilTiling.Proofs.Analysis.ExactCounts
import StencilTiling.Proofs.Device.Acceptance
import StencilTiling.Proofs.Device.Writing
import StencilTiling.Proofs.Device.RoundTrip
import StencilTiling.Proofs.Analysis.CommonMultiples
import StencilTiling.Proofs.Rounding
import StencilTiling.Proofs.Description.Picture
import StencilTiling.Proofs.Description.Faithful
