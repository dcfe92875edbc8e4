import BackupService.Handlers
import BackupService.Lib.Json

/-!
HTTP requests to the protected routes, and the extractors of the handlers.

What arrives is kept in the form in which the extractors look at it: the
path segment `{id}` with its percent-encoding undone, the query string as
the list of its pairs, the body as the data that is read from it. `extract`
turns that into a `Request`, or rejects it with one of the answers of axum.
The bodies and the query parameters are read as `serde` derives it from
their declarations, and a body that is refused is answered by what
`serde_json` objects to first, which can be the text although it is JSON: an
item too many, something that is no variant, a number beyond `f64`.
-/

namespace BackupService

open Lib Lib.Json

/-! ### Requests -/

inductive Method
  | get
  | head
  | post
  | patch
  | delete
  | options
  /-- A method that no route mentions. -/
  | other
  deriving DecidableEq, Repr

/-- A path of a protected route. The segment `{id}` is `none` when it is not
the encoding of a text. -/
inductive ProtectedPath
  | backups
  | backup (id : Option String)
  | analyze (id : Option String)
  | process (id : Option String)
  deriving DecidableEq, Repr

/-- What comes of reading the body as JSON. -/
inductive RequestBody
  /-- It is longer than a handler reads. -/
  | tooLarge
  /-- It breaks off. -/
  | broken
  | notJson (category : Category)
  | json (value : Json)

structure HttpRequest where
  method : Method
  path : ProtectedPath
  /-- The value of the first `Authorization` header. -/
  authorization : Option (List UInt8)
  query : List (String × String)
  contentLength : Option ℕ
  /-- The content type says that the body is JSON. -/
  jsonContentType : Bool
  body : RequestBody
  /-- The extension that `auth_middleware` inserts. -/
  claims : Option Claims

/-! ### Reading bodies and parameters -/

/-- The integers of an `i64`. -/
def asI64 : Decoder ℤ := asInt (-9223372036854775808) 9223372036854775808

def digitValue (c : Char) : ℕ := c.toNat - 48

/-- `str::parse::<i64>` -/
def parseI64 (s : String) : Option ℤ :=
  let (negative, digits) : Bool × List Char :=
    match s.toList with
    | '-' :: ds => (true, ds)
    | '+' :: ds => (false, ds)
    | ds => (false, ds)
  if digits ≠ [] ∧ digits.all Char.isDigit then
    let n : ℤ := digits.foldl (fun v c => v * 10 + digitValue c) 0
    asI64 (.int (if negative then -n else n))
  else none

/-- A unit variant: its name, or an object with the name as its only key. -/
def BackupStatus.deserialize : Decoder BackupStatus
  | .string s => ofName s
  | .object [(s, .null)] => ofName s
  | _ => none
where
  ofName (s : String) : Option BackupStatus :=
    [BackupStatus.pending, .running, .completed, .failed].find? (·.toString = s)

/-- What is neither a text nor an object is not read any further. -/
def BackupStatus.objection : Json → Option Category
  | .string s => if (deserialize.ofName s).isSome then none else some .data
  | .object ((s, j) :: rest) =>
      match deserialize.ofName s, j with
      | none, _ => some .data
      | some _, .null => if rest.isEmpty then none else some .badSyntax
      | some _, j => some j.mismatch
  | _ => some .badSyntax

def CreateBackupRequest.deserialize : Decoder CreateBackupRequest := fun j => do
  let m ← j.members ["source_path", "encryption_enabled"]
  let sourcePath ← m.required "source_path" asString
  let encryptionEnabled ← m.orDefault "encryption_enabled" asBool false
  return { sourcePath, encryptionEnabled }

def CreateBackupRequest.objection : Json → Category :=
  recordObjection
    [("source_path", scalarObjection asString), ("encryption_enabled", scalarObjection asBool)]

def UpdateBackupRequest.deserialize : Decoder UpdateBackupRequest := fun j => do
  let m ← j.members ["status", "size_bytes"]
  let status ← m.optional "status" (asOption BackupStatus.deserialize)
  let sizeBytes ← m.optional "size_bytes" (asOption asI64)
  return { status, sizeBytes }

def UpdateBackupRequest.objection : Json → Category :=
  recordObjection [("status", optionObjection BackupStatus.objection),
    ("size_bytes", optionObjection (scalarObjection asI64))]

/-- A query string is read like an object whose values are texts. -/
def ListParams.deserialize (query : List (String × String)) : Option ListParams := do
  let m ← (Json.object (query.map fun p => (p.1, .string p.2))).members ["offset", "limit", "status"]
  let number : Decoder ℤ := fun j => j.asString.bind parseI64
  let offset ← m.orDefault "offset" number 0
  let limit ← m.orDefault "limit" number defaultLimit
  let status ← m.optional "status" fun j => j.asString.map some
  return { offset, limit, status }

/-! ### Extractors -/

/-- The rejections of the extractors, and of a method that a path does not
have. -/
inductive Rejection
  | missingExtension
  | invalidPath
  | invalidQuery
  | missingJsonContentType
  | bodyTooLarge
  | bodyBroken
  | jsonSyntax
  | jsonData
  | methodNotAllowed
  deriving DecidableEq, Repr

/-- `JsonRejection`, by the category of the error of `serde_json`. -/
def Rejection.ofCategory : Category → Rejection
  | .badSyntax => .jsonSyntax
  | .data => .jsonData

def Rejection.status : Rejection → ℕ
  | missingExtension => 500
  | invalidPath => 400
  | invalidQuery => 400
  | missingJsonContentType => 415
  | bodyTooLarge => 413
  | bodyBroken => 400
  | jsonSyntax => 400
  | jsonData => 422
  | methodNotAllowed => 405

/-- `Json::from_request` -/
def readJson {T : Type} (deserialize : Decoder T) (objection : Json → Category)
    (jsonContentType : Bool) (body : RequestBody) : Except Rejection T :=
  if jsonContentType then
    match body with
    | .tooLarge => .error .bodyTooLarge
    | .broken => .error .bodyBroken
    | .notJson category => .error (.ofCategory category)
    | .json value =>
        match deserialize value with
        | some t => .ok t
        | none => .error (.ofCategory (objection value))
  else .error .missingJsonContentType

namespace HttpRequest

variable (r : HttpRequest)

/-- `Path<Uuid>` -/
def pathId (uuid : UuidParser) (segment : Option String) : Except Rejection Uuid :=
  match segment.map uuid.parse with
  | some (.ok id) => .ok id
  | _ => .error .invalidPath

/-- `Query<ListParams>` -/
def queryParams : Except Rejection ListParams :=
  match ListParams.deserialize r.query with
  | some params => .ok params
  | none => .error .invalidQuery

/-- `Json<T>` -/
def jsonBody {T : Type} (deserialize : Decoder T) (objection : Json → Category) :
    Except Rejection T :=
  readJson deserialize objection r.jsonContentType r.body

/-- The route of the request, and what its handler extracts from it. A `GET`
route also takes `HEAD`. -/
def extract (uuid : UuidParser) : Except Rejection Request :=
  match r.path, r.method with
  | .backups, .get | .backups, .head => .list <$> r.queryParams
  | .backups, .post =>
      .create <$> r.jsonBody CreateBackupRequest.deserialize CreateBackupRequest.objection
  | .backup id, .get | .backup id, .head => .get <$> pathId uuid id
  | .backup id, .patch => do
      return .update (← pathId uuid id)
        (← r.jsonBody UpdateBackupRequest.deserialize UpdateBackupRequest.objection)
  | .backup id, .delete => .delete <$> pathId uuid id
  | .analyze id, .post => .analyze <$> pathId uuid id
  | .process id, .post => .enqueue <$> pathId uuid id
  | _, _ => .error .methodNotAllowed

end HttpRequest

end BackupService
