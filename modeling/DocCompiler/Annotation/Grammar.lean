/-!
The annotation tags that are known, and the attributes that each one accepts.
-/

namespace DocCompiler.Annotation

/-- Tags of operations. -/
def methodTags : List String :=
  ["Get", "Post", "Put", "Patch", "Delete", "Head", "Options", "Trace"]

/-- Tags of parameters that fix where the parameter is passed, with that place. -/
def placedParameterTags : List (String × String) :=
  [("PathParameter", "path"), ("QueryParameter", "query"), ("HeaderParameter", "header"),
    ("CookieParameter", "cookie")]

/-- Tags of parameters. -/
def parameterTags : List String :=
  "Parameter" :: placedParameterTags.map (·.1)

/-- Tags of content with a fixed media type, with that type. -/
def contentTags : List (String × String) :=
  [("JsonContent", "application/json"), ("XmlContent", "application/xml")]

/-- Attributes of schemas. -/
def schemaAttributes : List String :=
  ["ref", "schema", "title", "description", "type", "format", "required", "properties", "items",
    "example", "enum", "nullable", "default", "minimum", "maximum", "readOnly", "writeOnly"]

/-- Attributes of operations. -/
def operationAttributes : List String :=
  ["path", "operationId", "tags", "summary", "description", "deprecated", "security", "parameters",
    "requestBody", "responses"]

/-- Attributes of parameters. -/
def parameterAttributes : List String :=
  ["ref", "parameter", "name", "in", "description", "required", "deprecated", "schema", "example"]

/-- The attributes that a known tag accepts; `none` for an unknown tag. -/
def attributesOf? (tag : String) : Option (List String) :=
  match tag with
  | "Info" => some ["title", "version", "description", "termsOfService", "contact", "license"]
  | "Contact" => some ["name", "email", "url"]
  | "License" => some ["name", "url", "identifier"]
  | "Server" => some ["url", "description"]
  | "Tag" => some ["name", "description"]
  | "Schema" | "Items" | "JsonContent" | "XmlContent" => some schemaAttributes
  | "Property" => some ("property" :: schemaAttributes)
  | "MediaType" => some ["mediaType", "schema", "example"]
  | "RequestBody" => some ["ref", "request", "description", "required", "content"]
  | "Response" => some ["ref", "response", "description", "content"]
  | "SecurityScheme" =>
      some ["securityScheme", "type", "scheme", "bearerFormat", "in", "name", "description"]
  | _ =>
      if methodTags.contains tag then some operationAttributes
      else if parameterTags.contains tag then some parameterAttributes
      else none

/-- Whether a tag is known. -/
def isKnownTag (tag : String) : Bool :=
  (attributesOf? tag).isSome

/-- Whether a tag makes sense only inside another annotation. -/
def isNestedOnlyTag (tag : String) : Bool :=
  ["Items", "JsonContent", "XmlContent", "MediaType"].contains tag

/-- Whether a tag may stand on its own. -/
def isTopLevelTag (tag : String) : Bool :=
  isKnownTag tag && !isNestedOnlyTag tag

end DocCompiler.Annotation
