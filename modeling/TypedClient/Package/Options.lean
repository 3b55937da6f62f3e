/-! # Options of a package

    What the reader of a generated package may choose about its code.
-/

namespace TypedClient

/-- The choices about the code of a package. -/
structure PackageOptions where
  /-- The module that the HTTP client is imported from. -/
  clientModule : String := "../axios"
  /-- The name that the HTTP client is imported under. -/
  clientName : String := "axios"
  /-- The module that the declarations go to, without extension. -/
  typesModule : String := "interfaces"
  /-- Whether comments are left out. -/
  withoutComments : Bool := false
  deriving DecidableEq, Repr

end TypedClient
