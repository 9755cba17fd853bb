/-!
# Failures

Why a document could not be read or a request not be carried out, and the texts that say so.
-/

namespace DesignCompiler

/-- A reason for giving up. -/
inductive Failure where
  /-- A file could not be written or a directory not be walked. -/
  | fileAccess (reason : String)
  /-- A text is no JSON, or its value is no design node. -/
  | malformedJson
  | nodeNotFound (id : String)
  | documentNotFound (reference : String)
  | accessDenied (reference reason : String)
  | rateLimited (retryAfter : Option Nat)
  | unreachable (reason : String)
  | catalog (reason : String)
  | fileNotFound (path : String)
  | invalidFormat (reason : String)
  | validationFailed (failed total : Nat)
deriving DecidableEq, Repr

namespace Failure

/-- The text of a failure. -/
def message : Failure → String
  | .fileAccess reason => "IO error: " ++ reason
  | .malformedJson => "JSON error:"
  | .nodeNotFound id => "Node not found: no node with id '" ++ id ++ "' exists in the document"
  | .documentNotFound reference => "Document not found: " ++ reference
  | .accessDenied reference reason => "Access denied to document " ++ reference ++ ": " ++ reason
  | .rateLimited none => "Rate limited by document source"
  | .rateLimited (some seconds) =>
    "Rate limited by document source (retry after " ++ seconds.repr ++ "s)"
  | .unreachable reason => "Document source unreachable: " ++ reason
  | .catalog reason => "Catalog error: " ++ reason
  | .fileNotFound path => "File not found: " ++ path
  | .invalidFormat reason => "Invalid format: " ++ reason
  | .validationFailed failed total =>
    "Validation failed: " ++ failed.repr ++ " of " ++ total.repr ++ " files have errors"

/-- The catalog failure of a text that is no catalog. -/
def malformedCatalog : Failure :=
  .catalog "Invalid catalog JSON:"

/-- Whether the failure arose before there was any tree to work on. -/
def isIngestion : Failure → Bool
  | .nodeNotFound _ | .documentNotFound _ | .accessDenied _ _ | .rateLimited _ | .unreachable _ =>
    true
  | _ => false

end Failure

end DesignCompiler
