import MbrcPlugin.Permissions.Gate
import MbrcPlugin.Server.SessionLines
import MbrcPlugin.Web.Pairing
import MbrcPlugin.Web.NowPlayingCover
import MbrcPlugin.Lib.Addresses
import MbrcPlugin.Lib.Environment

/-!
# The web server

One request meets the `Host` allowlist, then its route; a route that gives something away asks
whether the request carries a paired token where pairing is enforced, and an op asks Party Mode.
A request is a program over what it calls: the pairing, Party Mode, the host, the covers and the
embedded bundle.
-/

namespace Mbrc.Web

open Interaction Permissions Providers

/-! ## Requests -/

inductive Method where
  | get | head | post | other
  deriving DecidableEq

/-- The parameters that handlers read. -/
structure Query where
  token : Option String := none
  v : Option String := none

/-- What stands in the body: nothing, what is refused with a status, or a value. -/
inductive Body where
  | absent
  | bad (status : Nat)
  | json (data : Value)

/-- A request, its headers where they are text.  `path` are the segments it is routed by, `uriPath`
is the path as it was sent. -/
structure Request where
  method : Method
  path : List String
  uriPath : String
  host : Option String := none
  cookie : Option String := none
  authorization : Option String := none
  /-- The query, or the status of one that cannot be read. -/
  query : Except Nat Query := .ok {}
  /-- The upgrade to a WebSocket, or the status of a request that asks for none. -/
  upgrade : Except Nat Unit := .error 426
  body : Body := .absent

/-! ## The `Host` allowlist -/

/-- What stands before the last colon. -/
def beforeLastColon (host : List Char) : List Char :=
  match Text.splitOnce ':' host.reverse with
  | some (_, name) => name.reverse
  | none => host

/-- The name of a `Host`, without its port and the brackets of an IPv6 address. -/
def stripPort (host : String) : String :=
  String.ofList (match host.toList with
    | '[' :: rest =>
      if ']' ∈ rest then rest.takeWhile (· ≠ ']') else beforeLastColon ('[' :: rest)
    | cs => beforeLastColon cs)

/-- `is_allowed`: an address, a single label, or a name of a private suffix. -/
def isAllowed (host : String) : Bool :=
  let name := stripPort host
  if name = "" then false
  else if (Net.parseIp name).isSome then true
  else
    let name := ((name.toList.reverse.dropWhile (· = '.')).reverse).map Char.toLower
    '.' ∉ name || [".local", ".home.arpa", ".internal"].any fun suffix =>
      suffix.toList.isSuffixOf name

/-! ## Tokens -/

def tokenCookieName : String := "mbrc_token"

/-- `cookie_token`. -/
def cookieToken (raw : String) : Option String :=
  let pairs := (raw.toList.splitOn ';').filterMap (Text.splitOnce '=')
  (pairs.find? fun pair => Text.trimChars pair.1 = tokenCookieName.toList).map fun pair =>
    String.ofList (Text.trimChars pair.2)

/-- `bearer`. -/
def bearer (raw : String) : Option String := Text.after "Bearer " raw

def cookieMaxAgeSecs : Nat := 365 * 24 * 60 * 60

/-- `token_cookie`. -/
def tokenCookie (token : String) : String :=
  tokenCookieName ++ "=" ++ token ++ "; HttpOnly; SameSite=Strict; Path=/; Max-Age=" ++
    toString cookieMaxAgeSecs

namespace Request

variable (r : Request)

/-- The tokens a request carries, in the order they are tried; `query` is the token of its query
where the route reads it. -/
def tokens (query : Option String) : List String :=
  [r.cookie.bind cookieToken, r.authorization.bind bearer, query].filterMap id

end Request

/-! ## Calls -/

/-- What a redeemed code gives. -/
structure Redeemed where
  id : String
  token : String
  role : Role

inductive Call where
  | isPaired (token : String)
  | pairedId (token : String)
  | redeem (code label : String)
  | assignRole (principal : Principal) (role : Role)
  /-- Whether Party Mode is on. -/
  | enabled
  /-- The switch and the role, as the gate finds them. -/
  | standing (principal : Principal)
  | permissions (principal : Principal)
  | listVersion
  /-- A call of an op to the host. -/
  | host (c : Providers.Call)
  | readCover (hash : String)
  | playingPath
  | artwork (path : String)
  | openEvents (principal : Principal)
  | openSocket (principal : Principal)
  | asset (path : String)

abbrev Bytes := List UInt8

def Call.Answer : Call → Type
  | isPaired _ => Bool
  | pairedId _ => Option String
  | redeem _ _ => Except Pairing.PairingRefused Redeemed
  | assignRole _ _ | openEvents _ | openSocket _ => Unit
  | enabled => Bool
  | standing _ => Standing
  | permissions _ => Value
  | listVersion => Nat
  | host c => Providers.Answer c
  | readCover _ | artwork _ | asset _ => Option Bytes
  | playingPath => String

/-- What a request does. -/
abbrev Run (α : Type) := Program Call.Answer α

/-! ## Responses -/

inductive Content where
  | json (data : Value)
  | text (message : String)
  | bytes (data : Bytes)
  | events
  | socket

structure Response where
  status : Nat
  content : Content
  headers : List (String × String) := []

def csp : String :=
  "default-src 'self'; img-src 'self' data:; style-src 'self' 'unsafe-inline'; " ++
    "connect-src 'self' ws: wss:; object-src 'none'; base-uri 'none'"

/-- `SetResponseHeaderLayer::overriding`. -/
def Response.overriding (r : Response) (name value : String) : Response :=
  { r with headers := r.headers.filter (·.1 ≠ name) ++ [(name, value)] }

/-- The headers that every response carries. -/
def Response.secured (r : Response) : Response :=
  ((r.overriding "referrer-policy" "no-referrer").overriding "x-content-type-options"
    "nosniff").overriding "content-security-policy" csp

def plain (status : Nat) (message : String) : Response := { status, content := .text message }

/-- `unauthorized`: the one shape an unpaired caller ever sees. -/
def unauthorized (message : String) : Response where
  status := 401
  content := .json (.object [("error", .object
    [("code", .string "unauthorized"), ("message", .string message)])])

def unpaired : Response := unauthorized "pair this browser first"

/-- The status that carries an error of an op. -/
def statusFor : ErrorCode → Nat
  | .missingField | .invalidField => 400
  | .forbidden => 403
  | .unknownOp | .notFound => 404
  | .staleList | .staleTrack => 409
  | .unavailable => 503
  | .internal => 500

def errorResponse (e : V6Error) : Response where
  status := statusFor e.code
  content := .json (.object [("error", .object
    ([("code", .string (SessionLines.codeText e.code)), ("message", .string e.message)] ++
      e.field.elim [] fun field => [("field", .string field)]))])

/-! ## Admission -/

section

variable (required : Bool) (r : Request)

/-- Whether a request that carries this token may proceed. -/
def admits (token : Option String) : Run Bool :=
  if required then
    match token with
    | some token => .call (.isPaired token) fun paired => .done paired
    | none => .done false
  else .done true

/-- `admits_request`: the cookie, the header, then the query. -/
def admitsRequest (query : Option String) : Run Bool :=
  if required then
    (admits required (r.cookie.bind cookieToken)).bind fun cookie =>
      if cookie then .done true
      else (admits required (r.authorization.bind bearer)).bind fun header =>
        if header then .done true else admits required query
  else .done true

/-- The first paired browser of the tokens. -/
def principalOf : List String → Run Principal
  | [] => .done .anonymous
  | token :: tokens => .call (.pairedId token) fun (id : Option String) =>
    match id with
    | some id => .done (.browser id)
    | none => principalOf tokens

def principal (query : Option String) : Run Principal := principalOf (r.tokens query)

/-- What only an admitted request is answered. -/
def admitted (query : Option String) (handler : Run Response) : Run Response :=
  (admitsRequest required r query).bind fun ok => if ok then handler else .done unpaired

/-! ## The ops -/

/-- The ops the session answers itself. -/
def sessionOnlyOps : List String := ["handshake", "ping"]

/-- What Party Mode says of an op of this request. -/
def permitted (op : String) (data : Value) : Run (Except Refusal Unit) :=
  .call .enabled fun (on : Bool) =>
    if on then
      (principal r none).bind fun p => .call (.standing p) fun (s : Standing) =>
        .done (check s.partyMode s.role op (Permissions.V6.action op data))
    else .done (.ok ())

/-- The answer of an op, with its status. -/
def outcome : Except V6Error Value → Response
  | .ok data => { status := 200, content := .json data }
  | .error e => errorResponse e

/-- `call`: an op, its data in the body. -/
def dispatchCall (op : String) (data : Value) : Run Response :=
  if op ∈ sessionOnlyOps then
    .done (errorResponse
      { code := .unknownOp
        message := "\x60" ++ op ++
          "\x60 is a session op and is only available over the WebSocket transport" })
  else if op = "pair" then
    .done (errorResponse
      { code := .unknownOp
        message := "a browser pairs through \x60POST /api/pair\x60; \x60pair\x60 is for V6 apps " ++
          "on a socket" })
  else
    (permitted r op data).bind fun verdict =>
      match verdict with
      | .error refusal => .done (errorResponse { code := .forbidden, message := refusal.message })
      | .ok () => .call .listVersion fun (version : Nat) =>
        match CommandsV6.dispatch version op data with
        | some handler =>
          (Program.through Call.host handler.run).bind fun result => .done (outcome result)
        | none => .done (errorResponse
          { code := .unknownOp, message := "unknown op \x60" ++ op ++ "\x60" })

def call (op : String) : Run Response :=
  match r.body with
  | .absent => dispatchCall r op (.object [])
  | .bad status => .done { status, content := .text "" }
  | .json data => dispatchCall r op data

/-- The catalog of the ops and events, with what the caller may do. -/
def capabilities (catalog : List (String × Value)) : Run Response :=
  (principal r none).bind fun p => .call (.permissions p) fun (permissions : Value) =>
    .done { status := 200, content := .json (.object (catalog ++ [("permissions", permissions)])) }

/-! ## Pairing -/

def pairStatus : Run Response :=
  (admitsRequest required r none).bind fun (paired : Bool) =>
    .done { status := 200
            content := .json (.object [("auth_required", .bool required),
              ("paired", .bool paired)]) }

def redeemCode (body : Value) : Run Response :=
  let code := ((body.get "code").bind Value.asStr).getD ""
  let label := ((body.get "label").bind Value.asStr).getD "browser"
  .call (.redeem code label) fun (r : Except Pairing.PairingRefused Redeemed) =>
    match r with
    | .ok paired => .call (.assignRole (.browser paired.id) paired.role) fun _ =>
      .done { status := 200
              content := .json (.object [("token", .string paired.token),
                ("role", .string paired.role.asStr)])
              headers := [("set-cookie", tokenCookie paired.token)] }
    | .error refused => .done (unauthorized refused.message)

def pair : Run Response :=
  match r.body with
  | .absent => .done { status := 415, content := .text "" }
  | .bad status => .done { status, content := .text "" }
  | .json body => redeemCode body

/-! ## Covers, events, the socket and the bundle -/

def immutable : String := "public, max-age=31536000, immutable"

def noCache : String := "no-cache"

def image (cache : String) (data : Bytes) : Response where
  status := 200
  content := .bytes data
  headers := [("content-type", "image/jpeg"), ("cache-control", cache)]

/-- A handler that reads the query first. -/
def withQuery (handler : Query → Run Response) : Run Response :=
  match r.query with
  | .ok query => handler query
  | .error status => .done { status, content := .text "" }

/-- `GET /api/cover/{hash}`. -/
def cover (hash : String) : Run Response :=
  withQuery r fun query => admitted required r query.token
    (if NowPlayingCover.isContentHash hash then
      .call (.readCover hash) fun (bytes : Option Bytes) => .done (match bytes with
        | some bytes => image immutable bytes
        | none => plain 404 "no cover for that hash")
    else .done (plain 400 "not a content hash"))

/-- The picture of the file, or the one that is stored. -/
def playingCover (path : String) (v : Option String) : Run (Option Bytes) :=
  .call (.artwork path) fun (rendered : Option Bytes) =>
    match rendered with
    | some bytes => .done (some bytes)
    | none =>
      match v.filter NowPlayingCover.isContentHash with
      | some hash => .call (.readCover hash) fun (bytes : Option Bytes) => .done bytes
      | none => .done none

/-- `GET /api/cover/now-playing`. -/
def nowPlaying : Run Response :=
  withQuery r fun query => admitted required r query.token
    (.call .playingPath fun (path : String) =>
      if path = "" then .done (plain 404 "nothing playing")
      else (playingCover path query.v).bind fun picture => .done (match picture with
        | some bytes => image (if query.v.isSome then immutable else noCache) bytes
        | none => plain 404 "no artwork for the playing track"))

/-- `GET /api/events`. -/
def events : Run Response :=
  withQuery r fun query => admitted required r query.token
    ((principal r query.token).bind fun p => .call (.openEvents p) fun _ =>
      .done { status := 200, content := .events })

/-- `GET /ws`. -/
def upgrade : Run Response :=
  withQuery r fun query =>
    match r.method, r.upgrade with
    | .get, .ok () => admitted required r query.token
      ((principal r query.token).bind fun p => .call (.openSocket p) fun _ =>
        .done { status := 101, content := .socket })
    | .get, .error status => .done { status, content := .text "" }
    | _, _ => .done { status := 405, content := .text "" }

/-- `cache_for`. -/
def cacheFor (path : String) : String :=
  if "assets/".toList.isPrefixOf path.toList then immutable else noCache

/-- `mime_for`. -/
def mimeFor (path : String) : String :=
  match String.ofList ((path.toList.splitOn '.').getLastD []) with
  | "html" => "text/html; charset=utf-8"
  | "js" => "text/javascript; charset=utf-8"
  | "css" => "text/css; charset=utf-8"
  | "json" => "application/json"
  | "webmanifest" => "application/manifest+json"
  | "svg" => "image/svg+xml"
  | "png" => "image/png"
  | "jpg" | "jpeg" => "image/jpeg"
  | "webp" => "image/webp"
  | "ico" => "image/x-icon"
  | "woff2" => "font/woff2"
  | _ => "application/octet-stream"

def file (mime cache : String) (data : Bytes) : Response where
  status := 200
  content := .bytes data
  headers := [("content-type", mime), ("cache-control", cache)]

/-- The embedded bundle: an unknown path is the entry document. -/
def serve : Run Response :=
  let path := String.ofList (r.uriPath.toList.dropWhile (· = '/'))
  let path := if path = "" then "index.html" else path
  .call (.asset path) fun (found : Option Bytes) =>
    match found with
    | some data => .done (file (mimeFor path) (cacheFor path) data)
    | none => .call (.asset "index.html") fun (index : Option Bytes) => .done (match index with
      | some data => file "text/html; charset=utf-8" noCache data
      | none => plain 404 "web app not built")

/-! ## Routes -/

/-- A handler of one method; `HEAD` is answered like `GET`. -/
def onMethod (allowed : List Method) (handler : Run Response) : Run Response :=
  if r.method ∈ allowed then handler else .done { status := 405, content := .text "" }

/-- The route table; the ops and their catalog are behind the gate. -/
def routes (catalog : List (String × Value)) : Run Response :=
  match r.path with
  | ["api", "v6", "capabilities"] =>
    admitted required r none (onMethod r [.get, .head] (capabilities r catalog))
  | ["api", "v6", op] =>
    if op = "" then serve r else admitted required r none (onMethod r [.post] (call r op))
  | ["api", "cover", "now-playing"] => onMethod r [.get, .head] (nowPlaying required r)
  | ["api", "cover", hash] =>
    if hash = "" then serve r else onMethod r [.get, .head] (cover required r hash)
  | ["api", "pair"] => onMethod r [.post] (pair r)
  | ["api", "pair", "status"] => onMethod r [.get, .head] (pairStatus required r)
  | ["api", "events"] => onMethod r [.get, .head] (events required r)
  | ["ws"] => onMethod r [.get, .head] (upgrade required r)
  | _ => serve r

/-- One request, from the allowlist on. -/
def app (catalog : List (String × Value)) : Run Response :=
  (if isAllowed (r.host.getD "") then routes required r catalog
    else .done (plain 421 "unexpected Host")).bind fun response => .done response.secured

end

end Mbrc.Web
