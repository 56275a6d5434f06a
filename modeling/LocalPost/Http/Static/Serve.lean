import LocalPost.Http.Compress.Framing
import LocalPost.Http.Static.Range
import LocalPost.Http.Static.Resolve
import LocalPost.Http.Wsgi.Agreement

/-!
# The static file handler

`handle` is the handler that `static_handler` builds, over the files as they stand when the request
comes: it finds the file, answers a conditional request, cuts the range that was asked for, and
hands the bytes to `sendfile`. What it reads of a file is `File`; the texts that the library makes
of a modification time and of a name are parameters.
-/

set_option autoImplicit false

namespace LocalPost.Http.Static

open LocalPost.Core LocalPost.Http.Writer LocalPost.Http.Wsgi
open LocalPost.Http.Bytes (strip)
open LocalPost.Core.ChunkedCoding (hexText)

/-- `b"etag"`. -/
def etagName : Bytes := [101, 116, 97, 103]

/-- `b"last-modified"`. -/
def lastModifiedName : Bytes := [108, 97, 115, 116, 45, 109, 111, 100, 105, 102, 105, 101, 100]

/-- `b"accept-ranges"`. -/
def acceptRangesName : Bytes := [97, 99, 99, 101, 112, 116, 45, 114, 97, 110, 103, 101, 115]

/-- `b"content-range"`. -/
def contentRangeName : Bytes := [99, 111, 110, 116, 101, 110, 116, 45, 114, 97, 110, 103, 101]

/-- `b"allow"`. -/
def allowName : Bytes := [97, 108, 108, 111, 119]

/-- `b"if-none-match"`. -/
def ifNoneMatchName : Bytes := [105, 102, 45, 110, 111, 110, 101, 45, 109, 97, 116, 99, 104]

/-- `b"if-modified-since"`. -/
def ifModifiedSinceName : Bytes :=
  [105, 102, 45, 109, 111, 100, 105, 102, 105, 101, 100, 45, 115, 105, 110, 99, 101]

/-- `b"range"`. -/
def rangeName : Bytes := [114, 97, 110, 103, 101]

/-- `b"GET, HEAD"`. -/
def allowMethods : Bytes := [71, 69, 84, 44, 32, 72, 69, 65, 68]

/-- `b"Not Found"`. -/
def notFoundBody : Bytes := [78, 111, 116, 32, 70, 111, 117, 110, 100]

/-- `b"Method Not Allowed"`. -/
def methodNotAllowedBody : Bytes :=
  [77, 101, 116, 104, 111, 100, 32, 78, 111, 116, 32, 65, 108, 108, 111, 119, 101, 100]

/-- `b"Range Not Satisfiable"`. -/
def rangeNotSatisfiableBody : Bytes :=
  [82, 97, 110, 103, 101, 32, 78, 111, 116, 32, 83, 97, 116, 105, 115, 102, 105, 97, 98, 108, 101]

/-! ## What the handler reads -/

/-- A regular file: its bytes, the time of its last modification in nanoseconds, and whether the
server may open it. -/
structure File where
  content : Bytes
  mtime_ns : Int
  readable : Bool
  deriving DecidableEq, Repr

/-- `st.st_size`. -/
def File.size (f : File) : Nat := f.content.length

/-- What the library makes of a modification time (`formatdate`, and the time in whole seconds), of
the date in a header (in whole seconds, if it can be read), and of a name (`mimetypes.guess_type`).
The limit is that of `int`. -/
structure Library where
  formatdate : Int → Bytes
  seconds : Int → Int
  since : Bytes → Option Int
  guessType : FileName → Option Bytes
  limit : Nat

/-- The arguments of `static_handler`, with the root resolved. -/
structure Config where
  root : Path
  pathPrefix : Bytes
  cacheControl : Option Bytes
  index : Option Bytes
  deriving DecidableEq, Repr

/-- `f"{n:x}"` of an integer. -/
def hexInt (n : Int) : Bytes := if n < 0 then 45 :: hexText n.natAbs else hexText n.natAbs

/-- `_etag`. -/
def etag (f : File) : Bytes := 34 :: hexText f.size ++ 45 :: hexInt f.mtime_ns ++ [34]

/-- A tag without the mark of a weak one. -/
def bareTag (tag : Bytes) : Bytes := if [87, 47] <+: tag then tag.drop 2 else tag

/-- `_if_none_match_matches`. -/
def ifNoneMatchMatches (header tag : Bytes) : Bool :=
  if strip header = [42] then true
  else (header.splitOn 44).any fun entry => bareTag (strip entry) = bareTag tag

/-- `_if_modified_since_satisfied`. -/
def ifModifiedSinceSatisfied (lib : Library) (header : Bytes) (mtime_ns : Int) : Bool :=
  (lib.since header).any fun since => decide (lib.seconds mtime_ns ≤ since)

/-- `_content_type`. -/
def contentType (lib : Library) (target : Path) : Bytes :=
  (lib.guessType (target.getLast?.getD [])).getD Bytes.octetStream

/-- `_headers_index`: the last value of a name counts. -/
def headersIndex (headers : List (Bytes × Bytes)) : Dict Bytes Bytes := Dict.setAll [] headers

/-! ## Responses without a file -/

/-- A text that says what is wrong, with `extra` headers before or behind. -/
def textHeaders (body : Bytes) : List (Bytes × Bytes) :=
  [(Bytes.contentTypeName, Bytes.plainText), (Bytes.contentLengthName, decimalText body.length)]

/-- The 405: the body goes out, the method is not HEAD. -/
def methodNotAllowed : Answer :=
  .complete ⟨405, (allowName, allowMethods) :: textHeaders methodNotAllowedBody, []⟩
    (some methodNotAllowedBody)

/-- `_send_not_found`. -/
def sendNotFound (method : Bytes) : Answer :=
  .complete ⟨404, textHeaders notFoundBody, []⟩
    (if method = headMethod then none else some notFoundBody)

/-- `_send_not_modified`. -/
def sendNotModified (lib : Library) (cfg : Config) (f : File) : Answer :=
  .complete ⟨304, [(etagName, etag f), (lastModifiedName, lib.formatdate f.mtime_ns)] ++
    cfg.cacheControl.toList.map fun cc => (Bytes.cacheControlName, cc), []⟩ none

/-- `_send_range_not_satisfiable`. -/
def sendRangeNotSatisfiable (lib : Library) (method : Bytes) (f : File) : Answer :=
  .complete ⟨416, textHeaders rangeNotSatisfiableBody ++
    [(contentRangeName, [98, 121, 116, 101, 115, 32, 42, 47] ++ decimalText f.size),
      (etagName, etag f), (lastModifiedName, lib.formatdate f.mtime_ns)], []⟩
    (if method = headMethod then none else some rangeNotSatisfiableBody)

/-! ## The handler -/

/-- `f"bytes {offset}-{offset + length - 1}/{size}"`. -/
def contentRange (offset length size : Nat) : Bytes :=
  [98, 121, 116, 101, 115, 32] ++ decimalText offset ++ 45 :: decimalText (offset + length - 1) ++
    47 :: decimalText size

/-- The response with `length` bytes of the file from `offset` on. -/
def fileResponse (lib : Library) (cfg : Config) (target : Path) (f : File)
    (status offset length : Nat) : Response where
  statusCode := status
  headers :=
    [(Bytes.contentTypeName, contentType lib target), (Bytes.contentLengthName, decimalText length),
      (etagName, etag f), (lastModifiedName, lib.formatdate f.mtime_ns),
      (acceptRangesName, Static.bytesUnit)] ++
    (if status = 206 then [(contentRangeName, contentRange offset length f.size)] else []) ++
    cfg.cacheControl.toList.map fun cc => (Bytes.cacheControlName, cc)
  reason := []

/-- The part of the file that goes out: only its head for HEAD, and for no bytes. -/
def sendPart (lib : Library) (cfg : Config) (method : Bytes) (target : Path) (f : File)
    (status offset length : Nat) : Except Failure Answer :=
  let response := fileResponse lib cfg target f status offset length
  if method = headMethod ∨ length = 0 then .ok (.complete response none)
  else if f.readable then
    .ok (.sendfile response length ((f.content.drop offset).take length) false)
  else .error .permissionDenied

/-- The request is conditional, and what the client has is what the server has. -/
def notModified (lib : Library) (headers : Dict Bytes Bytes) (f : File) : Bool :=
  match Dict.get? ifNoneMatchName headers with
  | some header => ifNoneMatchMatches header (etag f)
  | none => (Dict.get? ifModifiedSinceName headers).any fun header =>
      ifModifiedSinceSatisfied lib header f.mtime_ns

/-- The range that is asked for, if the header can be read. -/
def askedRange (lib : Library) (headers : Dict Bytes Bytes) (f : File) : Parsed :=
  match (Dict.get? rangeName headers).map fun header => parseRange lib.limit header f.size with
  | some (.ok parsed) => parsed
  | _ => .ignored

/-- What is left of `handle` once the file is there. -/
def serve (lib : Library) (cfg : Config) (req : Request) (target : Path) (f : File) :
    Except Failure Answer :=
  let headers := headersIndex req.headers
  if notModified lib headers f then .ok (sendNotModified lib cfg f)
  else
    match askedRange lib headers f with
    | .unsatisfiable => .ok (sendRangeNotSatisfiable lib req.method f)
    | .range offset length => sendPart lib cfg req.method target f 206 offset.toNat length.toNat
    | .ignored => sendPart lib cfg req.method target f 200 0 f.size

/-- `handle`. -/
def handle (lib : Library) (cfg : Config) (tree : FileTree File) (req : Request) :
    Except Failure Answer :=
  if req.method ≠ getMethod ∧ req.method ≠ headMethod then .ok methodNotAllowed
  else if ¬ cfg.pathPrefix <+: req.path then .ok (sendNotFound req.method)
  else
    match resolve tree cfg.root (req.path.drop cfg.pathPrefix.length) cfg.index with
    | .error e => .error e
    | .ok none => .ok (sendNotFound req.method)
    | .ok (some target) =>
      match tree.stat target with
      | some (.regular f) => serve lib cfg req target f
      | _ => .ok (sendNotFound req.method)

end LocalPost.Http.Static
