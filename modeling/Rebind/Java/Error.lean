/-
Why a source text cannot be read.
-/
import Rebind.Text.Basic

namespace Rebind.Java

/-- The reasons for which reading a source text stops. -/
inductive ReadError where
  | noBracket (offset : Nat)
  /-- The bracket at an offset is never closed. -/
  | unbalanced (opener : Char) (offset : Nat)
  | annotationWithoutName (offset : Nat)
  | unterminatedDeclaration (limit : Nat)
  | unterminatedMember (className : Text)
  | nestedTypeWithoutBody (className : Text)
  | unnamedMethod (className : Text)
  /-- A method head with nothing after it. -/
  | methodWithoutEnd (methodName : Text)
  | typeWithoutBody (typeName : Text)
  | endOfText
  deriving DecidableEq

/-- What is reported. -/
def ReadError.message : ReadError → Text
  | noBracket offset => "no bracket at offset " ++ Text.numeral offset
  | unbalanced opener offset =>
    "unbalanced '" ++ [opener] ++ "' at offset " ++ Text.numeral offset
  | annotationWithoutName offset => "malformed annotation at offset " ++ Text.numeral offset
  | unterminatedDeclaration limit =>
    "unterminated declaration before offset " ++ Text.numeral limit
  | unterminatedMember className => "unterminated member in class " ++ className
  | nestedTypeWithoutBody className => "nested type without a body in class " ++ className
  | unnamedMethod className => "unnamed method in class " ++ className
  | methodWithoutEnd methodName => "method " ++ methodName ++ " has no body or ';'"
  | typeWithoutBody typeName => "type " ++ typeName ++ " has no body"
  | endOfText => "string index out of range"

end Rebind.Java
