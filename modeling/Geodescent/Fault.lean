import Geodescent.Datum

/-!
Everything that can go wrong, by cause. `Misuse` holds the ways to configure a run wrongly, `Fault`
adds steps that cannot be used, failed searches, points off a manifold, operations nobody supplied
and what oracles raise. `Fault.message` is the wording of each cause.
-/
namespace Geodescent

inductive Range where
  | nonnegative
  | positive
  | belowOne
deriving DecidableEq, Repr

def Range.text : Range → String
  | .nonnegative => "[0.0, inf)"
  | .positive => "(0.0, inf)"
  | .belowOne => "(0.0, 1.0)"

inductive Operation where
  | exponential
  | logarithm
  | retraction
  | projection
  | innerProduct
  | randomPoint
  | randomTangent
  | validation
  | dimension
  | ambientDimension
  | step
  | check
  | capture
  | solverStep
deriving DecidableEq, Repr

def Operation.message : Operation → String
  | .exponential => "Subclasses must implement exponential map"
  | .logarithm => "Subclasses must implement logarithmic map"
  | .retraction => "Subclasses must implement retraction"
  | .projection => "Subclasses must implement projection operation"
  | .innerProduct => "Subclasses must implement Riemannian inner product"
  | .randomPoint => "Subclasses must implement random point generation"
  | .randomTangent => "Subclasses must implement random tangent generation"
  | .validation => "Point validation not implemented"
  | .dimension => "Subclasses must define manifold dimension"
  | .ambientDimension => "Subclasses must define ambient dimension"
  | .step => "Subclasses must implement the step computation"
  | .check => "Subclasses must implement the stopping check"
  | .capture => "Subclasses must implement capture"
  | .solverStep => "Subclasses must implement the solver step"

inductive Misuse (α : Type) where
  | unknownSettings (key : String) (others : List String) (value : Datum α)
  | notFinite (name : String) (value : Datum α)
  | outOfRange (name : String) (range : Range) (value : Datum α)
  | badBudget (value : Datum α)
  | unknownRetraction (name : String)
  | badRetraction (value : Datum α)
  | badCap (value : Datum α)
  | badThreshold (name : String) (value : Datum α)
  | badFlag (value : Datum α)
  | noCriteria
  | notCriterion (value : Datum α)
  | badCadence (value : Datum α)
  | invalidToken (value : Datum α)
  | badCadenceToken (n : Int)
  | unknownToken (value : Datum α)
  | noManifold
  | notCallable (name : String) (value : Datum α)
  | noProximalMaps (value : Datum α)
  | badProximalParameter (value : Datum α)
  | badExponent (value : Datum α)
  | nothingRecorded (token : Datum α)
  | noRecord
  | noPoint
  | noArray (value : Datum α)
  | offManifold (manifold : String) (point : Datum α)
  | unknownOrder (value : Datum α)
  | needsGradient (kind : String) (rule : Datum α)

inductive Fault (α : Type) where
  | misuse (cause : Misuse α)
  | unusableStep (step : α) (iteration : Int)
  | exhausted (step : α) (iteration : Datum α) (iterate : Datum α) (budget : Datum α)
  | invalidPoint (manifold : String) (tolerance : Datum α) (point : Datum α)
  | missing (operation : Operation)
  | dimensionNotPositive (space : String) (n : Datum α)
  | dimensionNotWhole (space : String) (kind : String)
  | noData
  | noSamples (n : Int)
  | oracle (message : String)
  | undecorated
  | refused (cause : Refusal)
  | unfinished

def retractionNames : List String := ["exp", "retr"]

def orderNames : List String := ["LinearOrder"]

def settingNames : List String :=
  ["armijo_max_backtracks", "debug_stream", "point_atol", "validate_points"]

variable {α : Type} [Scalar α]

def Misuse.message : Misuse α → String
  | .unknownSettings key others _ =>
    "Unknown configuration keys: " ++ ", ".intercalate (key :: others) ++
      ". Available keys: " ++ ", ".intercalate settingNames
  | .notFinite name value =>
    "Parameter '" ++ name ++ "' must be a finite number, got " ++ value.written
  | .outOfRange name range value =>
    "Parameter '" ++ name ++ "' must lie in " ++ range.text ++ ", got " ++ value.plain
  | .badBudget value =>
    "Parameter 'max_backtracks' must be a non-negative integer, got " ++ value.written
  | .unknownRetraction name =>
    "Unknown retraction '" ++ name ++ "'. Available retractions: " ++
      ", ".intercalate retractionNames
  | .badRetraction value => "Retraction must be a name or a callable, got " ++ value.kind
  | .badCap value =>
    "Maximal number of iterations must be a non-negative integer, got " ++ value.written
  | .badThreshold name value =>
    "Parameter '" ++ name ++ "' must be a positive number, got " ++ value.written
  | .badFlag _ => "Flag must provide is_set() or be callable"
  | .noCriteria => "At least one stopping criterion is required"
  | .notCriterion value => "Expected a StoppingCriterion, got " ++ value.kind
  | .badCadence value => "Cadence must be a positive integer, got " ++ value.written
  | .invalidToken value => "Invalid token " ++ value.written
  | .badCadenceToken n => "Cadence tokens must be positive integers, got " ++ toString n
  | .unknownToken value =>
    "Unknown token " ++ value.written ++ ". Available tokens: " ++
      ", ".intercalate (Token.all.map Token.text)
  | .noManifold => "A manifold is required"
  | .notCallable name value => "'" ++ name ++ "' must be callable, got " ++ value.kind
  | .noProximalMaps _ => "At least one proximal map is required"
  | .badProximalParameter value => "Proximal parameter must be positive, got " ++ value.plain
  | .badExponent value =>
    "Proximal map of the distance is only available for p = 1, 2; got p = " ++ value.plain
  | .nothingRecorded token => "Nothing recorded for token " ++ token.written
  | .noRecord => "These options carry no record"
  | .noPoint => "An initial point is required"
  | .noArray _ => "Initial point cannot be converted to an array: "
  | .offManifold manifold _ => "Initial point does not lie on " ++ manifold
  | .unknownOrder value =>
    "Unknown evaluation order '" ++ value.plain ++ "'. Available orders: " ++
      ", ".intercalate orderNames
  | .needsGradient kind _ =>
    kind ++ " needs a gradient, which a proximal problem does not provide"

def Misuse.parameter : Misuse α → String
  | .unknownSettings key _ _ => key
  | .notFinite name _ | .outOfRange name _ _ | .badThreshold name _ | .notCallable name _ => name
  | .badBudget _ => "max_backtracks"
  | .unknownRetraction _ | .badRetraction _ => "retraction"
  | .badCap _ => "max_iterations"
  | .badFlag _ => "flag"
  | .noCriteria | .notCriterion _ => "criteria"
  | .badCadence _ => "every"
  | .invalidToken _ | .badCadenceToken _ | .unknownToken _ => "tokens"
  | .noManifold => "manifold"
  | .noProximalMaps _ => "proximal_maps"
  | .badProximalParameter _ => "lambda_"
  | .badExponent _ => "p"
  | .nothingRecorded _ => "token"
  | .noRecord => "options"
  | .noPoint | .noArray _ | .offManifold .. => "x"
  | .unknownOrder _ => "evaluation_order"
  | .needsGradient .. => "stepsize"

def Misuse.received : Misuse α → Datum α
  | .unknownSettings _ _ value => value
  | .notFinite _ value | .outOfRange _ _ value | .badThreshold _ value | .notCallable _ value
  | .badBudget value | .badRetraction value | .badCap value | .badFlag value
  | .notCriterion value | .badCadence value | .invalidToken value | .unknownToken value
  | .noProximalMaps value | .badProximalParameter value | .badExponent value
  | .nothingRecorded value | .noArray value | .offManifold _ value | .unknownOrder value
  | .needsGradient _ value => value
  | .unknownRetraction name => .text name
  | .badCadenceToken n => .whole n
  | .noCriteria | .noManifold | .noRecord | .noPoint => .none

/-- The wording of a fault; values that cannot be used at all have none. -/
def Fault.message? : Fault α → Option String
  | .misuse cause => some cause.message
  | .unusableStep step iteration =>
    some ("Stepsize rule returned an unusable step " ++ Scalar.standard step ++ " in iteration " ++
      toString iteration)
  | .exhausted step iteration _ budget =>
    some ("Armijo line search found no sufficient decrease within " ++ budget.plain ++
      " backtracks (iteration " ++ iteration.plain ++ ", last trial step " ++
      Scalar.brief step ++ ")")
  | .invalidPoint manifold tolerance _ =>
    some ("Point is not on " ++ manifold ++ " (atol=" ++ tolerance.plain ++ ")")
  | .missing operation => some operation.message
  | .dimensionNotPositive space n =>
    some (space ++ " dimension must be positive, got " ++ n.plain)
  | .dimensionNotWhole space kind =>
    some (space ++ " dimension must be an integer, got <class '" ++ kind ++ "'>")
  | .noData => some "At least one data point is required"
  | .noSamples n => some ("Number of samples must be positive, got " ++ toString n)
  | .oracle message => some message
  | .undecorated => some "options"
  | .refused _ => none
  | .unfinished => none

end Geodescent
