import LocalPost.Core.Dict
import LocalPost.Core.Text
import LocalPost.Http.Types

/-!
# The WSGI environ

`_build_environ` writes a request context as an environ, `_build_wsgi_ctx` reads one back. The
environ holds its text entries and the body behind `wsgi.input`; the other `wsgi.*` entries are
constants that nothing reads here. An encoding error is `none`.
-/

set_option autoImplicit false

namespace LocalPost.Http.Wsgi

open LocalPost.Core

/-- The request context, as far as the bridge reads and builds it. -/
structure Ctx where
  request : Request
  remoteAddr : Option Str
  localAddr : Str
  scheme : Str
  deriving DecidableEq, Repr

/-- The environ. -/
structure Environ where
  vars : Dict Str Str
  input : Bytes
  deriving DecidableEq, Repr

/-- A hexadecimal digit. -/
def hexValue (b : UInt8) : Option UInt8 :=
  if 48 ≤ b ∧ b ≤ 57 then some (b - 48)
  else if 65 ≤ b ∧ b ≤ 70 then some (b - 55)
  else if 97 ≤ b ∧ b ≤ 102 then some (b - 87)
  else none

/-- The byte that two hexadecimal digits stand for. -/
def hexByte (a b : UInt8) : Option UInt8 :=
  (hexValue a).bind fun x => (hexValue b).map fun y => x * 16 + y

/-- `urllib.parse.unquote_to_bytes`: a percent sign without two digits stays. -/
def unquote : Bytes → Bytes
  | 37 :: a :: b :: rest =>
    match hexByte a b with
    | some x => x :: unquote rest
    | none => 37 :: unquote (a :: b :: rest)
  | x :: rest => x :: unquote rest
  | [] => []

/-- `s.rpartition(":")` without the separator. -/
def rpartition (s : Str) : Str × Str :=
  if ':' ∈ s then
    ((s.reverse.dropWhile (· ≠ ':')).tail.reverse, (s.reverse.takeWhile (· ≠ ':')).reverse)
  else ([], s)

/-- `b"HTTP_" + name.upper().replace(b"-", b"_")`. -/
def cgiKey (name : Bytes) : Bytes :=
  [72, 84, 84, 80, 95] ++ (Bytes.upper name).map fun x => if x = 45 then 95 else x

/-- The key of a header's entry. -/
def headerKey (name : Bytes) : Option Str :=
  if name = Bytes.contentTypeName then some "CONTENT_TYPE".toList
  else if name = Bytes.contentLengthName then some "CONTENT_LENGTH".toList
  else decodeAscii (cgiKey name)

/-- The entries before the headers. -/
def baseVars (ctx : Ctx) (method version : Str) : Dict Str Str :=
  let server := rpartition ctx.localAddr
  let host := if server.1 = [] then ctx.localAddr else server.1
  let port := if server.1 = [] then [] else server.2
  let vars := [("REQUEST_METHOD".toList, method), ("SCRIPT_NAME".toList, []),
    ("PATH_INFO".toList, decodeLatin1 (unquote ctx.request.path)),
    ("QUERY_STRING".toList, decodeLatin1 ctx.request.queryString), ("CONTENT_TYPE".toList, []),
    ("CONTENT_LENGTH".toList, []), ("SERVER_NAME".toList, host), ("SERVER_PORT".toList, port),
    ("SERVER_PROTOCOL".toList, "HTTP/".toList ++ version), ("wsgi.url_scheme".toList, ctx.scheme)]
  match ctx.remoteAddr with
  | none => vars
  | some addr =>
    let client := rpartition addr
    if client.1 ≠ [] then
      vars ++ [("REMOTE_ADDR".toList, client.1), ("REMOTE_PORT".toList, client.2)]
    else vars ++ [("REMOTE_ADDR".toList, addr)]

/-- The entry of one header. -/
def addHeader (vars : Dict Str Str) (header : Bytes × Bytes) : Option (Dict Str Str) :=
  (headerKey header.1).map fun key => Dict.set key (decodeLatin1 header.2) vars

/-- `_build_environ`. -/
def buildEnviron (ctx : Ctx) (body : Bytes) : Option Environ :=
  (decodeAscii ctx.request.method).bind fun method =>
    (decodeAscii ctx.request.httpVersion).bind fun version =>
      (ctx.request.headers.foldlM addHeader (baseVars ctx method version)).map fun vars =>
        ⟨vars, body⟩

/-- `environ.get(key, default)`. -/
def getVar (env : Environ) (key : String) (default : Str) : Str :=
  (Dict.get? key.toList env.vars).getD default

/-- A header with an entry of its own, when that is not empty. -/
def specialHeader (env : Environ) (key : String) (name : Bytes) : Option (List (Bytes × Bytes)) :=
  match (Dict.get? key.toList env.vars).filter (· ≠ []) with
  | none => some []
  | some value => (encodeLatin1 value).map fun value => [(name, value)]

/-- The name of a header from its key. -/
def headerName (key : Str) : Option Bytes :=
  encodeAscii (lowerText ((key.drop 5).map fun c => if c = '_' then '-' else c))

/-- The headers among the entries. -/
def httpHeaders : Dict Str Str → Option (List (Bytes × Bytes))
  | [] => some []
  | (key, value) :: rest =>
    if "HTTP_".toList.isPrefixOf key then
      (headerName key).bind fun name => (encodeLatin1 value).bind fun value =>
        (httpHeaders rest).map fun headers => (name, value) :: headers
    else httpHeaders rest

/-- The version behind the first slash of the protocol. -/
def protocolVersion (proto : Str) : Option Bytes :=
  if '/' ∈ proto then encodeAscii (proto.dropWhile (· ≠ '/')).tail
  else some [49, 46, 49]

/-- `_build_wsgi_ctx`, up to the capture of the response; the environ is kept for its input. -/
def buildWsgiCtx (env : Environ) : Option Ctx :=
  (encodeAscii (getVar env "REQUEST_METHOD" "GET".toList)).bind fun method =>
    (encodeLatin1 (getVar env "PATH_INFO" [])).bind fun path =>
      (encodeLatin1 (getVar env "QUERY_STRING" [])).bind fun query =>
        (specialHeader env "CONTENT_TYPE" Bytes.contentTypeName).bind fun contentType =>
          (specialHeader env "CONTENT_LENGTH" Bytes.contentLengthName).bind fun contentLength =>
            (httpHeaders env.vars).bind fun headers =>
              (protocolVersion (getVar env "SERVER_PROTOCOL" "HTTP/1.1".toList)).map fun version =>
                let host := getVar env "SERVER_NAME" []
                let port := getVar env "SERVER_PORT" []
                { request :=
                    { method := method
                      target := path ++ if query = [] then [] else 63 :: query
                      path := path
                      queryString := query
                      headers := contentType ++ contentLength ++ headers
                      httpVersion := version }
                  localAddr := if port = [] then host else host ++ ':' :: port
                  remoteAddr :=
                    match (Dict.get? "REMOTE_ADDR".toList env.vars).filter (· ≠ []) with
                    | none => none
                    | some remoteHost =>
                      match (Dict.get? "REMOTE_PORT".toList env.vars).filter (· ≠ []) with
                      | none => some remoteHost
                      | some remotePort => some (remoteHost ++ ':' :: remotePort)
                  scheme := getVar env "wsgi.url_scheme" "http".toList }

end LocalPost.Http.Wsgi
