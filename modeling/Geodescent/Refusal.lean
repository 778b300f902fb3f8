/-!
Refusals: ways in which a value cannot be used at all, before any rule of this library looks at it.
-/
namespace Geodescent

inductive Refusal where
  | wrongType
  | wrongValue
  | tooLarge
  | divisionByZero
  | outOfBounds
  | noSuchField
  | noSuchKey
  | immutable
deriving DecidableEq, Repr

end Geodescent
