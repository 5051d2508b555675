import LaserCut.Main
import LaserCut.Proofs.Conversion.Numbers
import LaserCut.Proofs.Geometry.Deviation
import LaserCut.Proofs.Geometry.Sweep
import LaserCut.Proofs.PathData.Interpretation
import LaserCut.Proofs.PathData.Placing
import LaserCut.Proofs.Svg.Document
import LaserCut.Proofs.Svg.Places
import LaserCut.Proofs.Markup.Scoping
import LaserCut.Proofs.Markup.Serial
import LaserCut.Proofs.Binary64.Finite
import LaserCut.Proofs.Gcode.Numbers
import LaserCut.Proofs.Conversion.Refusals
import LaserCut.Proofs.Gcode.Feed
import LaserCut.Proofs.Gcode.Position
import LaserCut.Proofs.Conversion.Layers
import LaserCut.Proofs.Conversion.Prefixes
import LaserCut.Proofs.Svg.ShapeData
import LaserCut.Proofs.Conversion.Descent
import LaserCut.Proofs.CommandLine.Run
import LaserCut.Proofs.Svg.PolylinePath
import LaserCut.Proofs.PathData.Relative
import LaserCut.Proofs.PathData.Subpaths
import LaserCut.Proofs.Svg.RoundShapes
import LaserCut.Proofs.Svg.Style
import LaserCut.Proofs.Geometry.Tolerance
import LaserCut.Proofs.PathData.Faults
import LaserCut.Proofs.Svg.TransformMaps
import LaserCut.Proofs.Conversion.Similarity
import LaserCut.Proofs.Geometry.Quadratic
import LaserCut.Proofs.Conversion.Origin
import LaserCut.Proofs.Conversion.Precision
import LaserCut.Proofs.Files.Siblings
import LaserCut.Proofs.Geometry.ControlPolygon
import LaserCut.Proofs.PathData.Rounds
