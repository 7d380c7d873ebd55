import DesignChart.Dictionary
import DesignChart.Error.Text
import DesignChart.Options.Json
import DesignChart.Proofs.Scalar.Order
import DesignChart.Proofs.Scalar.Rational
import DesignChart.Proofs.Axis.Location
import DesignChart.Proofs.Scalar.Double
import DesignChart.Proofs.Scalar.Exact
import DesignChart.Proofs.Axis.Reading
import DesignChart.Proofs.Chart.Curve
import DesignChart.Proofs.Matrix.Entries
import DesignChart.Proofs.Chart.ValueGrid
import DesignChart.Proofs.Chart.Accepted
import DesignChart.Proofs.Interpolant.Policies
import DesignChart.Proofs.Chart.Exact
import DesignChart.Proofs.Interpolant.Tables
import DesignChart.Proofs.Chart.Polyline
import DesignChart.Proofs.Interpolant.Families
import DesignChart.Proofs.Chart.Domain
import DesignChart.Proofs.Scalar.Zeros
import DesignChart.Proofs.Interpolant.Clamped
import DesignChart.Proofs.Interpolant.Orientation
import DesignChart.Proofs.Interpolant.NoNumber
import DesignChart.Proofs.Dictionary.Build
import DesignChart.Proofs.Axis.Weights
import DesignChart.Proofs.Interpolant.Refusals
import DesignChart.Proofs.Interpolant.Tabulated
import DesignChart.Proofs.Chart.Exchange
import DesignChart.Proofs.Interpolant.Exchange
import DesignChart.Proofs.Raw.Program
import DesignChart.Proofs.Raw.Construction
import DesignChart.Proofs.Raw.Evaluation
import DesignChart.Proofs.Raw.Soundness
import DesignChart.Proofs.Dictionary.Sharing
import DesignChart.Proofs.Interpolant.Blame
import DesignChart.Proofs.Interpolant.Bounds
import DesignChart.Proofs.Axis.Slopes
import DesignChart.Proofs.Interpolant.Slopes
import DesignChart.Proofs.Axis.Monotone
import DesignChart.Proofs.Interpolant.Monotone
import DesignChart.Proofs.Matrix.Refined
import DesignChart.Proofs.Chart.Refined
import DesignChart.Proofs.Interpolant.Refined
import DesignChart.Proofs.Interpolant.Linear
import DesignChart.Proofs.Interpolant.Locality
import DesignChart.Proofs.Dictionary.Disputes
import DesignChart.Proofs.Dictionary.Groups
import DesignChart.Proofs.Dictionary.Packing
import DesignChart.Proofs.Interpolant.Finite
import DesignChart.Proofs.Axis.Arranged
import DesignChart.Proofs.Axis.Search
import DesignChart.Proofs.Matrix.Contents
import DesignChart.Proofs.Json.Reading
import DesignChart.Proofs.Json.Strings
import DesignChart.Proofs.Json.Numbers
import DesignChart.Proofs.Json.Layout
import DesignChart.Proofs.Json.Writing
import DesignChart.Proofs.Options.Stored
