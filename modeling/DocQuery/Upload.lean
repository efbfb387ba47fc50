import DocQuery.Batch
import DocQuery.Schema
import DocQuery.Text.Encoding

namespace DocQuery.Service

/-- An answer with its status. -/
structure Response where
  status : Nat
  body : Value

def failed (status : Nat) (message : String) : Response :=
  ⟨status, .doc [("error", .text message)]⟩

/-- Answers a request for the schema. -/
def schema (files : Files) : Response :=
  match Schema.readJson files "schema.json" with
  | .ok v => ⟨200, v⟩
  | .error e => failed 500 s!"Schema error: {e.message}"

/-- Answers a request for the page. -/
def index : Response := ⟨200, .doc [("template", .text "index.html")]⟩

end DocQuery.Service

namespace DocQuery.Upload

/-- The schema in an uploaded file. -/
def schemaOf (content : List UInt8) : Except String Value :=
  match Text.Encoding.decode content with
  | .error e => .error e.message
  | .ok cs => (Json.parse cs).mapError (·.message)

/-- Answers with the texts of all commands. -/
def transpile (content : List UInt8) (query : String) : Service.Response :=
  match schemaOf content with
  | .error message => Service.failed 400 message
  | .ok schema =>
    ⟨200, .doc [("queries", .list ((Batch.transpile schema query).map .text))]⟩

end DocQuery.Upload
