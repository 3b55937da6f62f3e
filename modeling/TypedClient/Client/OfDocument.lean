import TypedClient.Client.Basic
import TypedClient.Client.SharedParameters
import TypedClient.Client.Claim
import TypedClient.Name.ParameterName
import TypedClient.Name.PathTokens
import TypedClient.Schema.Following
import TypedClient.Usage.Mentions

/-! # Clients of documents

    Every document has a client: what is missing or malformed gives permissive
    types, and a warning where a reader should know.

    * **Parameters**: those of the path item that the operation does not
      replace, then its own. Only those for the path and the query become
      arguments, the first before the second; a token of the path that none of
      them names becomes an argument in between.
    * **Bodies** come from the request body or else from the first parameter
      located in the body.
-/

namespace TypedClient

/-- The identifier of a body, unless it is taken. -/
def bodyName : String :=
  "data"

/-- The parameters of an operation: the shared ones that it does not replace,
    then its own. -/
def mergeParameters (shared own : List Parameter) : List Parameter :=
  shared.filter (fun s => !own.any (fun o => o.name == s.name && o.location == s.location)) ++ own

/-- Whether the chain of references of a schema ends at a list. -/
def Schema.isArray (s : Schema) (definitions : Definitions) : Bool :=
  match s.follow? definitions with
  | some target => target.primary? == some .array
  | none => false

/-- Whether a name asks for a list, by brackets in it. -/
def hasBrackets : List Char → Bool
  | [] => false
  | '[' :: ']' :: _ => true
  | _ :: r => hasBrackets r

/-- The argument of a parameter under a given identifier. -/
def Parameter.argument (p : Parameter) (name : String) (place : Place)
    (definitions : Definitions) : Argument :=
  let schema := p.effectiveSchema
  { name
    key := p.name
    place
    type := schema.resolve
    required := p.required || place == .path
    isArray := hasBrackets p.name.toList || schema.isArray definitions
    description := p.description }

/-- The argument of a path token that no parameter declares. -/
def tokenArgument (token name : String) : Argument :=
  { name
    key := token
    place := .path
    type := .string
    required := true
    isArray := false
    description := none }

/-- The arguments of parameters, with identifiers that differ from each other
    and from those of the arguments before them. -/
def claimArguments (place : Place) (definitions : Definitions) (before : List Argument) :
    List Parameter → List Argument
  | [] => before
  | p :: rest =>
    let name := claimArgument (before.map (·.name)) (Name.parameterName p.name)
    claimArguments place definitions (before ++ [p.argument name place definitions]) rest

/-- The warning about a path token that no parameter declares. -/
def tokenWarning (function token : String) : String :=
  function ++ ": path token `\x7b" ++ token ++ "\x7d` is not declared, typing it as string"

/-- Adds arguments for the path tokens that none of the arguments names. -/
def claimTokens (function : String) (before : List Argument) :
    List String → Warned (List Argument)
  | [] => ⟨before, []⟩
  | token :: rest =>
    if before.any (fun a => a.key == token) then claimTokens function before rest
    else
      let name := claimArgument (before.map (·.name)) (Name.parameterName token)
      let others := claimTokens function (before ++ [tokenArgument token name]) rest
      ⟨others.value, tokenWarning function token :: others.warnings⟩

/-- The schema of the body of an operation, with its description. -/
def Operation.bodySchema? (o : Operation) (declared : List Parameter) :
    Option (Schema × Option String) :=
  match o.requestBody with
  | some body => (jsonSchema? body.content).map (fun schema => (schema, body.description))
  | none =>
    match declared.find? (fun p => p.location == .body) with
    | some p => p.schema.map (fun schema => (schema, p.description))
    | none => none

/-- The type names that a parameter for a place mentions. -/
def mentionsOf (declared : List Parameter) (location : Location) (definitions : Definitions) :
    List String :=
  (declared.filter (fun p => p.location == location)).flatMap
    (fun p => p.effectiveSchema.mentions definitions)

/-- The type names that a body mentions. A reference of its own counts even if
    nothing declares it. -/
def bodyMentions (schema : Schema) (definitions : Definitions) : List String :=
  (schema.reference.map (fun r => Name.typeName (Name.referenceName r))).toList
    ++ schema.mentions definitions

/-- The type names that an operation mentions, in reading order. -/
def Operation.mentions (o : Operation) (declared : List Parameter) (definitions : Definitions) :
    List String :=
  mentionsOf declared .path definitions
    ++ mentionsOf declared .query definitions
    ++ (match o.bodySchema? declared with
        | some (schema, _) => bodyMentions schema definitions
        | none => [])
    ++ (match o.success?.bind Response.jsonSchema? with
        | some schema => schema.mentions definitions
        | none => [])

/-- The name that an operation asks for: its own, or one made of its method and
    path. -/
def Operation.wantedName (o : Operation) (method : Method) (path : String) : String :=
  Name.functionName (o.operationId.getD (method.lower ++ "_" ++ path))

/-- The endpoint of an operation under a given name. -/
def Operation.endpoint (o : Operation) (name : String) (method : Method) (path : String)
    (declared : List Parameter) (definitions : Definitions) : Warned Endpoint :=
  -- Names are claimed in the order of the signature, the body last.
  let inPath := claimArguments .path definitions []
    (declared.filter (fun p => p.location == .path))
  let withTokens := claimTokens name inPath (Name.pathTokens path)
  let all := claimArguments .query definitions withTokens.value
    (declared.filter (fun p => p.location == .query))
  let body := (o.bodySchema? declared).map (fun found =>
    { name := claimArgument (all.map (·.name)) bodyName
      type := found.1.resolve
      description := found.2 : Body })
  let returns :=
    match o.success?.bind Response.jsonSchema? with
    | some schema => schema.resolve
    | none => .any
  ⟨{ name, method, path
     summary := o.summary
     description := o.description
     deprecated := o.deprecated.getD false
     arguments := all
     body, returns }, withTokens.warnings⟩

/-- The endpoints so far, the names handed out, and the types used. -/
structure Client.Progress where
  /-- The function names handed out. -/
  names : FunctionNames := []
  endpoints : List Endpoint := []
  used : NameSet := []

/-- Adds the endpoint of an operation. -/
def Client.Progress.addOperation (d : Document) (definitions : Definitions) (path : String)
    (shared : List Parameter) (progress : Client.Progress) (entry : Method × Operation) :
    Warned Client.Progress := do
  let (method, operation) := entry
  let (name, names) ← progress.names.claim (operation.wantedName method path)
  -- The name comes first: its warning precedes those about parameters.
  let own ← d.sharedParameters.resolveAll operation.parameters
  let declared := mergeParameters shared own
  let endpoint ← operation.endpoint name method path declared definitions
  return { names
           endpoints := progress.endpoints ++ [endpoint]
           used := progress.used.merge (operation.mentions declared definitions) }

/-- Adds the endpoints of a path item. -/
def Client.Progress.addPath (d : Document) (definitions : Definitions)
    (progress : Client.Progress) (entry : String × PathItem) : Warned Client.Progress := do
  let shared ← d.sharedParameters.resolveAll entry.2.parameters
  let (operations, unreadable) := entry.2.operations
  let operations : List (Method × Operation) ← ⟨operations, unreadable⟩
  operations.foldlM (addOperation d definitions entry.1 shared) progress

/-- The client of a document that came from `source`. -/
def Document.client (d : Document) (source : String) : Warned Client := do
  let definitions := d.allDefinitions
  let progress : Client.Progress ← d.paths.foldlM (Client.Progress.addPath d definitions) {}
  return { title := d.info.title
           description := d.info.description
           version := d.info.version
           source
           definitions
           declarations := definitions.declarations
           endpoints := progress.endpoints
           used := progress.used }

end TypedClient
