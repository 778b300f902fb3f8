/-!
The quantities that output and records can name. `Token.ofText?` reads the names back.
-/
namespace Geodescent

inductive Token where
  | iteration
  | cost
  | change
  | iterate
  | stop
  | gradientNorm
  | stepsize
deriving DecidableEq, Repr

namespace Token

def all : List Token := [.iteration, .cost, .change, .iterate, .stop, .gradientNorm, .stepsize]

def text : Token → String
  | .iteration => "Iteration"
  | .cost => "Cost"
  | .change => "Change"
  | .iterate => "x"
  | .stop => "Stop"
  | .gradientNorm => "GradientNorm"
  | .stepsize => "Stepsize"

def label : Token → String
  | .iteration => "ITERATION"
  | .cost => "COST"
  | .change => "CHANGE"
  | .iterate => "ITERATE"
  | .stop => "STOP"
  | .gradientNorm => "GRADIENT_NORM"
  | .stepsize => "STEPSIZE"

def ofText? (name : String) : Option Token := all.find? fun t => t.text == name

def ofLabel? (name : String) : Option Token := all.find? fun t => t.label == name

theorem mem_all (t : Token) : t ∈ all := by cases t <;> decide

theorem ofText?_text (t : Token) : ofText? t.text = some t := by cases t <;> decide

theorem ofText?_eq_some {name : String} {t : Token} (h : ofText? name = some t) :
    t.text = name := by
  have := List.find?_some h
  simpa using this

end Token
end Geodescent
