import LocalPost.Http.Static.Confined
import LocalPost.Http.Writer.Sent

/-!
# What a client gets of a file

What the handler answers a GET with says itself what comes: the length that it declares is that of
the bytes, the range that it names is the part of the file, and HEAD gets the same head
(`handle_describes`). A client on the httptools backend receives those bytes, and through the path
of a file the whole file (`file_received`). The tag of a file stands for its size and time, so a
client that sends back the tags it has is told that nothing has changed exactly when one of them is
that of the file as it is (`revalidated_iff`).
-/

set_option autoImplicit false

namespace LocalPost.Http.Static

open LocalPost.Core LocalPost.Http.Writer LocalPost.Http.Wsgi
open LocalPost.Http.Bytes (strip)
open LocalPost.Core.ChunkedCoding (hexText hexDigit hexNumber ofHexText)

/-! ## Ranges -/

/-- A range that is taken lies in the file. -/
theorem rangeOfParts_bounds (limit : Nat) (start_b end_b : Bytes) {size : Nat} {offset length : Int}
    (hsize : size ≠ 0) (h : rangeOfParts limit start_b end_b size = .ok (.range offset length)) :
    0 ≤ offset ∧ 1 ≤ length ∧ offset + length ≤ size := by
  rw [rangeOfParts] at h
  split at h
  · split at h
    · cases h
    -- the last bytes: no more than there are
    · cases hint : pyInt limit end_b with
      | error e =>
        rw [hint] at h
        cases h
      | ok n =>
        rw [hint] at h
        change (if n ≤ 0 then Except.ok Parsed.ignored else
          Except.ok (.range (size - min n size) (min n size))) = _ at h
        split at h
        · cases h
        · cases h
          omega
  · cases hint : pyInt limit start_b with
    | error e =>
      rw [hint] at h
      cases h
    | ok first =>
      rw [hint] at h
      change (if first < 0 then Except.ok Parsed.ignored else if first ≥ size then
        .ok .unsatisfiable else
        if end_b = [] then .ok (.range first (size - first)) else _) = _ at h
      split at h
      · cases h
      · split at h
        · cases h
        · split at h
          · cases h
            omega
          · cases hstop : pyInt limit end_b with
            | error e =>
              rw [hstop] at h
              cases h
            | ok last =>
              rw [hstop] at h
              change (if last < first then Except.ok Parsed.ignored else
                .ok (.range first (min last (size - 1) - first + 1))) = _ at h
              split at h
              · cases h
              · cases h
                omega

/-- A range lies in the file, and has a byte at least. -/
theorem parseRange_bounds {limit : Nat} {header : Bytes} {size : Nat} {offset length : Int}
    (h : parseRange limit header size = .ok (.range offset length)) :
    0 ≤ offset ∧ 1 ≤ length ∧ offset + length ≤ size := by
  by_cases hpresents : ∃ start stop, Presents header start stop
  · obtain ⟨start, stop, hpresents⟩ := hpresents
    rw [parseRange_of_presents limit size hpresents] at h
    split at h
    · cases h
    · rename_i hsize
      refine rangeOfParts_bounds limit start stop hsize ?_
      cases hparts : rangeOfParts limit start stop size with
      | error e =>
        rw [hparts] at h
        cases h
      | ok v =>
        rw [hparts] at h
        exact h
  · rw [parseRange_of_not_presents limit size fun start stop hp => hpresents ⟨start, stop, hp⟩] at h
    cases h

/-! ## Heads -/

/-- A head declares the length `n` when its one header of that name has it, and none is a coding. -/
theorem declares_of_headers {r : Response} {n : Nat}
    (hlength : (Bytes.contentLengthName, decimalText n) ∈ r.headers)
    (hall : ∀ header ∈ r.headers, header = (Bytes.contentLengthName, decimalText n) ∨
      header.1.lower ≠ Bytes.contentLengthName ∧ header.1.lower ≠ transferEncodingName) :
        r.Declares n := by
  refine ⟨⟨_, hlength, (by decide : Bytes.contentLengthName.lower = Bytes.contentLengthName)⟩,
    fun header hheader hname => ?_, fun header hheader => ?_⟩
  · rcases hall header hheader with rfl | ⟨hother, -⟩
    · exact (Compress.numeral_decimalText n).int_eq
    · exact absurd hname hother
  · rcases hall header hheader with rfl | ⟨-, hother⟩
    · exact (by decide : Bytes.contentLengthName.lower ≠ transferEncodingName)
    · exact hother

/-- A header that does not speak about the body's length. -/
def Other (name : Bytes) : Prop :=
  name.lower ≠ Bytes.contentLengthName ∧ name.lower ≠ transferEncodingName

instance (name : Bytes) : Decidable (Other name) := inferInstanceAs (Decidable (_ ∧ _))

/-- The headers in front of one that has the length, and those behind it. -/
theorem declares_of_append {status n : Nat} (before behind : List (Bytes × Bytes))
    (hbefore : ∀ header ∈ before, Other header.1) (hbehind : ∀ header ∈ behind, Other header.1) :
    Response.Declares
      ⟨status, before ++ (Bytes.contentLengthName, decimalText n) :: behind, []⟩ n := by
  refine declares_of_headers (List.mem_append_right _ List.mem_cons_self) fun header hheader => ?_
  rcases List.mem_append.1 hheader with hheader | hheader
  · exact .inr (hbefore header hheader)
  · rcases List.mem_cons.1 hheader with rfl | hheader
    · exact .inl rfl
    · exact .inr (hbehind header hheader)

theorem declares_methodNotAllowed :
    methodNotAllowed.response.Declares methodNotAllowedBody.length := by
  refine declares_of_append [(allowName, allowMethods), (Bytes.contentTypeName, Bytes.plainText)] []
    (fun header hheader => ?_) fun header hheader => absurd hheader List.not_mem_nil
  simp only [List.mem_cons, List.not_mem_nil, or_false] at hheader
  rcases hheader with rfl | rfl
  · exact (by decide : Other allowName)
  · exact (by decide : Other Bytes.contentTypeName)

theorem declares_sendNotFound (method : Bytes) :
    (sendNotFound method).response.Declares notFoundBody.length := by
  refine declares_of_append [(Bytes.contentTypeName, Bytes.plainText)] [] (fun header hheader => ?_)
    fun header hheader => absurd hheader List.not_mem_nil
  rw [List.mem_singleton.1 hheader]
  exact (by decide : Other Bytes.contentTypeName)

section

variable {lib : Library} {cfg : Config} {f : File}

/-- The 416 declares the length of its body. -/
theorem declares_sendRangeNotSatisfiable (method : Bytes) :
    (sendRangeNotSatisfiable lib method f).response.Declares rangeNotSatisfiableBody.length := by
  refine declares_of_append [(Bytes.contentTypeName, Bytes.plainText)]
    [(contentRangeName, [98, 121, 116, 101, 115, 32, 42, 47] ++ decimalText f.size),
      (etagName, etag f), (lastModifiedName, lib.formatdate f.mtime_ns)]
    (fun header hheader => ?_) fun header hheader => ?_
  · rw [List.mem_singleton.1 hheader]
    exact (by decide : Other Bytes.contentTypeName)
  · simp only [List.mem_cons, List.not_mem_nil, or_false] at hheader
    rcases hheader with rfl | rfl | rfl
    · exact (by decide : Other contentRangeName)
    · exact (by decide : Other etagName)
    · exact (by decide : Other lastModifiedName)

/-- The response for a file declares the length that is sent. -/
theorem declares_fileResponse (lib : Library) (cfg : Config) (f : File) (target : Path)
    (status offset length : Nat) :
    (fileResponse lib cfg target f status offset length).Declares length := by
  refine declares_of_append [(Bytes.contentTypeName, contentType lib target)]
    ([(etagName, etag f), (lastModifiedName, lib.formatdate f.mtime_ns),
      (acceptRangesName, Static.bytesUnit)] ++
      (if status = 206 then [(contentRangeName, contentRange offset length f.size)] else []) ++
      cfg.cacheControl.toList.map fun cc => (Bytes.cacheControlName, cc))
    (fun header hheader => ?_) fun header hheader => ?_
  · rw [List.mem_singleton.1 hheader]
    exact (by decide : Other Bytes.contentTypeName)
  · rcases List.mem_append.1 hheader with hheader | hheader
    · rcases List.mem_append.1 hheader with hheader | hheader
      · simp only [List.mem_cons, List.not_mem_nil, or_false] at hheader
        rcases hheader with rfl | rfl | rfl
        · exact (by decide : Other etagName)
        · exact (by decide : Other lastModifiedName)
        · exact (by decide : Other acceptRangesName)
      · split at hheader
        · rw [List.mem_singleton.1 hheader]
          exact (by decide : Other contentRangeName)
        · exact absurd hheader List.not_mem_nil
    · obtain ⟨cc, -, rfl⟩ := List.mem_map.1 hheader
      exact (by decide : Other Bytes.cacheControlName)

/-! ## The answers to a GET -/

/-- The part of a file that a request is for: the whole file, or the range in it. -/
inductive Asked (lib : Library) (headers : Dict Bytes Bytes) (f : File) :
    Nat → Nat → Nat → Prop where
  | whole (h : askedRange lib headers f = .ignored) : Asked lib headers f 200 0 f.size
  | range {offset length : Nat} (h : askedRange lib headers f = .range offset length)
    (hpos : 1 ≤ length)
      (hle : offset + length ≤ f.size) : Asked lib headers f 206 offset length

theorem Asked.bound {headers : Dict Bytes Bytes} {status offset length : Nat}
    (h : Asked lib headers f status offset length) : offset + length ≤ f.size := by
  cases h with
  | whole h => exact Nat.le_of_eq (Nat.zero_add _)
  | range h hpos hle => exact hle

/-- What is handed over for a part. -/
theorem sendPart_ok {method : Bytes} {target : Path} {status offset length : Nat} {a : Answer}
    (hget : method ≠ headMethod) (hbound : offset + length ≤ f.size)
    (h : sendPart lib cfg method target f status offset length = .ok a) :
    a.response = fileResponse lib cfg target f status offset length ∧
      a.handed = (f.content.drop offset).take length ∧ a.handed.length = length ∧
      ((length = 0 ∧ a = .complete a.response none) ∨
        a = .sendfile a.response length a.handed false) := by
  rw [sendPart] at h
  split at h
  · rename_i hempty
    cases h
    have hzero : length = 0 := hempty.resolve_left hget
    refine ⟨rfl, ?_, hzero.symm, .inl ⟨hzero, rfl⟩⟩
    rw [hzero, List.take_zero]
    rfl
  · split at h
    · cases h
      refine ⟨rfl, rfl, ?_, .inr rfl⟩
      change ((f.content.drop offset).take length).length = length
      rw [List.length_take, List.length_drop]
      rw [File.size] at hbound
      omega
    · cases h

theorem sendPart_head {target : Path} {status offset length : Nat} :
    sendPart lib cfg headMethod target f status offset length =
      .ok (.complete (fileResponse lib cfg target f status offset length) none) := by
  rw [sendPart]
  exact if_pos (.inl rfl)

/-- The range of a header is a part of the file. -/
theorem asked_of_range {headers : Dict Bytes Bytes} {offset length : Int}
    (h : askedRange lib headers f = .range offset length) :
    Asked lib headers f 206 offset.toNat length.toNat := by
  have hbounds : 0 ≤ offset ∧ 1 ≤ length ∧ offset + length ≤ f.size := by
    rw [askedRange] at h
    split at h
    · rename_i parsed hparsed
      obtain ⟨header, -, hrange⟩ := Option.map_eq_some_iff.1 hparsed
      rw [h] at hrange
      exact parseRange_bounds hrange
    · cases h
  obtain ⟨hoffset, hlength, hle⟩ := hbounds
  refine .range ?_ (by omega) (by omega)
  rw [h, Int.toNat_of_nonneg hoffset, Int.toNat_of_nonneg (Int.le_trans Int.one_nonneg hlength)]

/-- The answers about a file. -/
theorem serve_cases (lib : Library) (cfg : Config) (req : Request) (target : Path) (f : File) :
    (notModified lib (headersIndex req.headers) f = true ∧
      serve lib cfg req target f = .ok (sendNotModified lib cfg f)) ∨
    (notModified lib (headersIndex req.headers) f = false ∧
      serve lib cfg req target f = .ok (sendRangeNotSatisfiable lib req.method f)) ∨
    (notModified lib (headersIndex req.headers) f = false ∧
      ∃ status offset length, Asked lib (headersIndex req.headers) f status offset length ∧
        serve lib cfg req target f = sendPart lib cfg req.method target f
          status offset length) := by
  rw [serve]
  cases hmodified : notModified lib (headersIndex req.headers) f with
  | true => exact .inl ⟨rfl, rfl⟩
  | false =>
    refine .inr ?_
    rw [if_neg Bool.false_ne_true]
    cases hasked : askedRange lib (headersIndex req.headers) f with
    | unsatisfiable => exact .inl ⟨rfl, rfl⟩
    | range offset length => exact .inr ⟨rfl, _, _, _, asked_of_range hasked, rfl⟩
    | ignored => exact .inr ⟨rfl, _, _, _, .whole hasked, rfl⟩

end

/-- What an answer to a GET says of itself. -/
structure Describes (cfg : Config) (tree : FileTree File) (a : Answer) : Prop where
  length : (a.response.statusCode = 304 ∧ a.handed = []) ∨ a.response.Declares a.handed.length
  part : a.response.statusCode = 200 ∨ a.response.statusCode = 206 →
    ∃ p f offset length, cfg.root <+: p ∧ tree.node p = some (.regular f) ∧ offset + length ≤
      f.size ∧ a.handed = (f.content.drop offset).take length ∧
      (a.response.statusCode = 200 → a.handed = f.content) ∧
      (a.response.statusCode = 206 → 1 ≤ length ∧
        (contentRangeName, contentRange offset length f.size) ∈ a.response.headers)

section

variable {lib : Library} {cfg : Config} {tree : FileTree File} {req : Request} {a : Answer}

/-- What is served of a file describes itself, and `HEAD` gets the same head. -/
theorem serve_describes {p : Path} {f : File} (hget : req.method = getMethod)
    (hroot : cfg.root <+: p)
    (hnode : tree.node p = some (.regular f)) (h : serve lib cfg req p f = .ok a) :
    Describes cfg tree a ∧
      serve lib cfg { req with method := headMethod } p f = .ok (.complete a.response none) := by
  have hne : req.method ≠ headMethod := by
    rw [hget]
    decide
  rw [serve] at h
  rw [serve]
  split at h
  · rename_i hmodified
    cases h
    refine ⟨⟨.inl ⟨rfl, rfl⟩, fun hcode => ?_⟩, if_pos hmodified⟩
    rcases hcode with hcode | hcode <;> cases hcode
  · rename_i hmodified
    rw [if_neg hmodified]
    -- the part is the same for both methods
    have hpart : ∀ {status offset length : Nat}, Asked lib (headersIndex req.headers) f status
      offset length →
        sendPart lib cfg req.method p f status offset length = .ok a → Describes cfg tree a ∧
          sendPart lib cfg headMethod p f status offset length = .ok
              (.complete a.response none) := by
      intro status offset length hasked hsend
      obtain ⟨hresponse, hhanded, hlength, -⟩ := sendPart_ok hne hasked.bound hsend
      refine ⟨⟨.inr ?_, fun _ =>
        ⟨p, f, offset, length, hroot, hnode, hasked.bound, hhanded, ?_, ?_⟩⟩, ?_⟩
      · rw [hresponse, hlength]
        exact declares_fileResponse lib cfg f p status offset length
      · rw [hresponse]
        intro hcode
        cases hasked with
        | whole hwhole => rw [hhanded, List.drop_zero, File.size, List.take_length]
        | range hrange hpos hle => cases hcode
      · rw [hresponse]
        intro hcode
        cases hasked with
        | whole hwhole => cases hcode
        | range hrange hpos hle =>
          refine ⟨hpos, List.mem_append_left _ (List.mem_append_right _ ?_)⟩
          exact List.mem_singleton.2 rfl
      · rw [sendPart_head, hresponse]
    cases hasked : askedRange lib (headersIndex req.headers) f with
    | unsatisfiable =>
      rw [hasked] at h
      cases h
      refine ⟨⟨.inr ?_, fun hcode => ?_⟩, rfl⟩
      · rw [sendRangeNotSatisfiable, if_neg hne]
        exact declares_sendRangeNotSatisfiable req.method
      · rcases hcode with hcode | hcode <;> cases hcode
    | range offset length =>
      rw [hasked] at h
      exact hpart (asked_of_range hasked) h
    | ignored =>
      rw [hasked] at h
      exact hpart (.whole hasked) h

/-- For every file tree and every GET that is answered: the answer declares the length of what it
hands over (a 304 hands over nothing), which is a file below the root or the part of it that the
answer names; and HEAD gets the same head without a body. -/
theorem handle_describes (lib : Library) (cfg : Config) (tree : FileTree File) (req : Request)
    (hget : req.method = getMethod) (a : Answer) (h : handle lib cfg tree req = .ok a) :
    Describes cfg tree a ∧
      handle lib cfg tree { req with method := headMethod } = .ok (.complete a.response none) := by
  have hguard : ¬(req.method ≠ getMethod ∧ req.method ≠ headMethod) := fun hno => hno.1 hget
  have hguard' : ¬(headMethod ≠ getMethod ∧ headMethod ≠ headMethod) := fun hno => hno.2 rfl
  have hne : req.method ≠ headMethod := by
    rw [hget]
    decide
  -- not found, with and without the body
  have hnotFound : Describes cfg tree (sendNotFound req.method) ∧
      sendNotFound headMethod = .complete (sendNotFound req.method).response none := by
    refine ⟨⟨.inr ?_, fun hcode => ?_⟩, rfl⟩
    · rw [sendNotFound, if_neg hne]
      exact declares_sendNotFound req.method
    · rcases hcode with hcode | hcode <;> cases hcode
  rw [handle, if_neg hguard] at h
  rw [handle, if_neg hguard']
  split at h
  · rename_i hprefix
    cases h
    rw [if_pos hprefix, ← hnotFound.2]
    exact ⟨hnotFound.1, rfl⟩
  · rename_i hprefix
    rw [if_neg hprefix]
    cases hresolve : resolve tree cfg.root (req.path.drop cfg.pathPrefix.length) cfg.index with
    | error e =>
      rw [hresolve] at h
      cases h
    | ok target =>
      rw [hresolve] at h
      cases target with
      | none =>
        cases h
        exact ⟨hnotFound.1, congrArg Except.ok hnotFound.2⟩
      | some target =>
        obtain ⟨hroot, hsettled⟩ := resolve_inside hresolve
        dsimp only at h ⊢
        cases hstat : tree.stat target with
        | none =>
          rw [hstat] at h
          cases h
          exact ⟨hnotFound.1, congrArg Except.ok hnotFound.2⟩
        | some x =>
          rw [hstat] at h
          cases x with
          | regular f =>
            exact serve_describes hget hroot (FileTree.stat_of_settled hsettled ▸ hstat) h
          | _ =>
            cases h
            exact ⟨hnotFound.1, congrArg Except.ok hnotFound.2⟩

end

/-- The page of the site. -/
def sitePage : File := ⟨[104, 105], 0, true⟩

/-- The request for a part of it, `bytes=1-`. -/
def partRequest : Request :=
  .ofTarget getMethod [47, 97] [(rangeName, [98, 121, 116, 101, 115, 61, 49, 45])] [49, 46, 49]

theorem handle_describes_partRequest :
    ∃ a, handle plainLibrary siteConfig (siteTree []) partRequest = .ok a ∧ a.handed = [105] ∧
      Describes siteConfig (siteTree []) a ∧
      handle plainLibrary siteConfig (siteTree []) { partRequest with method := headMethod } =
        .ok (.complete a.response none) := by
  have hanswer : handle plainLibrary siteConfig (siteTree []) partRequest =
      .ok (.sendfile (fileResponse plainLibrary siteConfig [[115], [97]] sitePage 206 1 1) 1
          [105] false) := by
    decide +kernel
  exact ⟨_, hanswer, rfl, handle_describes plainLibrary siteConfig
    (siteTree []) partRequest rfl _ hanswer⟩

/-! ## The whole file -/

theorem get?_headersIndex_of_not_mem {headers : List (Bytes × Bytes)} {name : Bytes}
    (h : ∀ header ∈ headers, header.1 ≠ name) : Dict.get? name (headersIndex headers) = none := by
  rw [headersIndex, Dict.get?_setAll_of_not_mem]
  · rfl
  · intro hmem
    obtain ⟨header, hheader, heq⟩ := List.mem_map.1 hmem
    exact h header hheader heq

/-- For every file below the root whose name is UTF-8, and every path that is a percent coding of
its name: a plain GET of that path brings the whole file to the client, on both native backends. -/
theorem file_received (lib : Library) (cfg : Config) (tree : FileTree File) {names : List FileName}
    {f : File} {rel : Bytes} {n : Nat} {req : Request}
    (hnode : tree.node (cfg.root ++ names) = some (.regular f)) (hreadable : f.readable = true)
    (hutf8 : ∀ name ∈ names, Utf8.decode name ≠ none) (hget : req.method = getMethod)
    (hpath : req.path = cfg.pathPrefix ++ rel)
    (hrel : unquote rel = List.replicate n 47 ++ joinNames names)
    (hplain : ∀ header ∈ req.headers, header.1 ≠ ifNoneMatchName ∧ header.1 ≠ ifModifiedSinceName ∧
      header.1 ≠ rangeName) :
    ∃ a, handle lib cfg tree req = .ok a ∧
      (∀ keepAlive, sentHttptools a getMethod keepAlive = some (200, f.content)) ∧
      ∀ {ω : Type} (W : H11.Connection ω) (framing : ω → H11.Framing) (closing : ω → Bool)
        (closes : Bytes → Bool → Response → Bool), W.Documented framing closing closes →
        ∀ method keepAlive drained result, Bytes.upper method = getMethod →
          sentH11 W a method keepAlive drained = some result → result = (200, f.content) := by
  have hresolve : resolve tree cfg.root (req.path.drop cfg.pathPrefix.length) cfg.index =
      .ok (some (cfg.root ++ names)) := by
    rw [hpath, List.drop_left]
    exact resolve_names cfg.index hnode hutf8 hrel
  -- the request gets past the guards on method and prefix, and the path is the file's
  have hserve : handle lib cfg tree req = serve lib cfg req (cfg.root ++ names) f := by
    have hprefix : cfg.pathPrefix <+: req.path := hpath ▸ List.prefix_append _ _
    rw [handle, if_neg fun hno => hno.1 hget, if_neg fun hno => hno hprefix, hresolve]
    dsimp only
    rw [FileTree.stat_of_settled (FileTree.settled_of_node hnode rfl), hnode]
  -- without the three headers the whole file is asked for
  have hnone : notModified lib (headersIndex req.headers) f = false := by
    rw [notModified, get?_headersIndex_of_not_mem fun header hheader => (hplain header hheader).1,
      get?_headersIndex_of_not_mem fun header hheader => (hplain header hheader).2.1]
    rfl
  have hasked : askedRange lib (headersIndex req.headers) f = .ignored := by
    rw [askedRange, get?_headersIndex_of_not_mem fun header hheader => (hplain header hheader).2.2]
    rfl
  have hdeclares := declares_fileResponse lib cfg f (cfg.root ++ names) 200 0 f.size
  have hhead : getMethod ≠ headMethod := by decide
  have hconnect : getMethod ≠ connectMethod := by decide
  have hcontent : (f.content.drop 0).take f.size = f.content := by
    rw [List.drop_zero, File.size, List.take_length]
  rw [hserve, serve, hnone, if_neg Bool.false_ne_true, hasked]
  dsimp only
  rw [sendPart]
  -- an empty file is answered without `sendfile`
  by_cases hempty : f.size = 0
  · have hnil : f.content = [] := List.length_eq_zero_iff.1 hempty
    rw [if_pos (.inr hempty)]
    refine ⟨_, rfl, fun keepAlive => ?_,
      fun W framing closing closes hW method keepAlive drained result hmethod hsent => ?_⟩
    · rw [sentHttptools_complete hdeclares, hnil]
      rfl
    · have hdeclared : Answer.Declared
        (.complete (fileResponse lib cfg (cfg.root ++ names) f 200 0 f.size) none) :=
        trivial
      rw [sentH11_eq hW (hmethod ▸ hhead) (hmethod ▸ hconnect) rfl hdeclared hsent, hmethod, hnil]
      rfl
  · have hsome : ¬(req.method = headMethod ∨ f.size = 0) := by
      rw [hget, not_or]
      exact ⟨by decide, hempty⟩
    rw [if_neg hsome, if_pos hreadable, hcontent]
    refine ⟨_, rfl, fun keepAlive => ?_,
      fun W framing closing closes hW method keepAlive drained result hmethod hsent => ?_⟩
    · rw [sentHttptools_sendfile hdeclares]
      rfl
    · have hdeclared : Answer.Declared
        (.sendfile (fileResponse lib cfg (cfg.root ++ names) f 200 0 f.size)
        f.size f.content false) := hdeclares
      rw [sentH11_eq hW (hmethod ▸ hhead) (hmethod ▸ hconnect) rfl hdeclared hsent, hmethod]
      rfl

/-- The request for the page, with its letter written as `%61`. -/
def pageRequest (headers : List (Bytes × Bytes)) : Request :=
  .ofTarget getMethod [47, 37, 54, 49] headers [49, 46, 49]

/-- A path with a coded slash, its digit in lower case, in front of the letter as it is. -/
def codedRequest : Request := .ofTarget getMethod [47, 37, 50, 102, 97] [] [49, 46, 49]

theorem file_received_page :
    ∃ a, handle plainLibrary siteConfig (siteTree []) codedRequest = .ok a ∧
      ∀ keepAlive, sentHttptools a getMethod keepAlive = some (200, [104, 105]) := by
  have hnode : (siteTree []).node ([[115]] ++ [[97]]) = some (.regular sitePage) := rfl
  have hrel : unquote [37, 50, 102, 97] = List.replicate 1 47 ++ joinNames
    [[97]] := by decide +kernel
  obtain ⟨a, ha, hsent, -⟩ := file_received plainLibrary siteConfig (siteTree []) hnode rfl
    (by decide +kernel : ∀ name ∈ ([[97]] : List FileName), Utf8.decode name ≠ none) rfl
    (by decide +kernel : codedRequest.path = [47] ++ [37, 50, 102, 97]) hrel
    (fun header hheader => absurd hheader List.not_mem_nil)
  exact ⟨a, ha, hsent⟩

/-! ## Revalidation -/

theorem hexText_injective {n m : Nat} (h : hexText n = hexText m) : n = m := by
  have hread := ChunkedCoding.ofHexText_hexText n
  rw [h, ChunkedCoding.ofHexText_hexText] at hread
  exact (Option.some.inj hread).symm

theorem minus_not_mem_hexText (n : Nat) : 45 ∉ hexText n := by
  intro h
  obtain ⟨d, hd, heq⟩ := ChunkedCoding.mem_hexText h
  have hne : ∀ d < 16, hexDigit d ≠ 45 := by decide
  exact hne d hd heq.symm

/-- The hexadecimal text of an integer says which it is. -/
theorem hexInt_injective {n m : Int} (h : hexInt n = hexInt m) : n = m := by
  rw [hexInt, hexInt] at h
  split at h
  · split at h
    · have habs := hexText_injective (List.cons.inj h).2
      omega
    · exact absurd (h ▸ List.mem_cons_self) (minus_not_mem_hexText m.natAbs)
  · split at h
    · exact absurd (h ▸ List.mem_cons_self) (minus_not_mem_hexText n.natAbs)
    · have habs := hexText_injective h
      omega

/-- A tag stands for the size and the time of a file. -/
theorem etag_eq_iff {f g : File} : etag f = etag g ↔ f.size = g.size ∧ f.mtime_ns = g.mtime_ns := by
  constructor
  · intro h
    have htail := List.append_cancel_right (List.cons.inj h).2
    obtain ⟨hsize, htime⟩ := eq_of_append_cons (minus_not_mem_hexText f.size)
      (minus_not_mem_hexText g.size) htail
    exact ⟨hexText_injective hsize, hexInt_injective htime⟩
  · rintro ⟨hsize, htime⟩
    rw [etag, etag, hsize, htime]

/-- What a client writes for a tag that it has: the tag, or the tag as a weak one. -/
def writtenTag (entry : Bool × File) : Bytes := if entry.1 then
    [87, 47] ++ etag entry.2 else etag entry.2

/-- `, `.join -/
def tagList (entries : List (Bool × File)) : Bytes := [44, 32].intercalate (entries.map writtenTag)

/-- A byte that is no comma, no star and no blank, so it is read as a part of the entry it stands
in. -/
def Solid (x : UInt8) : Prop := x ≠ 44 ∧ x ≠ 42 ∧ Bytes.isSpace x = false

instance (x : UInt8) : Decidable (Solid x) := inferInstanceAs (Decidable (_ ∧ _))

theorem solid_of_mem_hexText {n : Nat} {x : UInt8} (h : x ∈ hexText n) : Solid x := by
  obtain ⟨d, hd, rfl⟩ := ChunkedCoding.mem_hexText h
  have hall : ∀ d < 16, Solid (hexDigit d) := by decide
  exact hall d hd

theorem solid_of_mem_hexInt {n : Int} {x : UInt8} (h : x ∈ hexInt n) : Solid x := by
  rw [hexInt] at h
  split at h
  · rcases List.mem_cons.1 h with rfl | h
    · exact (by decide : Solid 45)
    · exact solid_of_mem_hexText h
  · exact solid_of_mem_hexText h

/-- A tag has none of the bytes that separate tags. -/
theorem solid_of_mem_etag {f : File} {x : UInt8} (h : x ∈ etag f) : Solid x := by
  rcases List.mem_append.1 h with h | h
  · rcases List.mem_append.1 h with h | h
    · rcases List.mem_cons.1 h with rfl | h
      · exact (by decide : Solid 34)
      · exact solid_of_mem_hexText h
    · rcases List.mem_cons.1 h with rfl | h
      · exact (by decide : Solid 45)
      · exact solid_of_mem_hexInt h
  · rw [List.mem_singleton.1 h]
    exact (by decide : Solid 34)

/-- A weak tag has none of them either. -/
theorem solid_of_mem_writtenTag {entry : Bool × File} {x : UInt8} (h : x ∈ writtenTag entry) :
    Solid x := by
  rw [writtenTag] at h
  split at h
  · rcases List.mem_append.1 h with h | h
    · simp only [List.mem_cons, List.not_mem_nil, or_false] at h
      rcases h with rfl | rfl
      · exact (by decide : Solid 87)
      · exact (by decide : Solid 47)
    · exact solid_of_mem_etag h
  · exact solid_of_mem_etag h

theorem strip_of_solid {b : Bytes} (h : ∀ x ∈ b, Solid x) : strip b = b := by
  have hfront : b.dropWhile Bytes.isSpace = b := by
    refine List.dropWhile_eq_self_iff.2 fun hpos hspace => ?_
    rw [(h _ (List.getElem_mem hpos)).2.2] at hspace
    cases hspace
  rw [strip, hfront]
  refine List.rdropWhile_eq_self_iff.2 fun hne hspace => ?_
  rw [(h _ (List.getLast_mem hne)).2.2] at hspace
  cases hspace

/-- The blank behind a comma does not count. -/
theorem strip_blank (b : Bytes) : strip (32 :: b) = strip b := by
  rw [strip, strip, List.dropWhile_cons_of_pos (by decide)]

theorem map_strip_modifyHead (l : List Bytes) :
    (l.modifyHead (32 :: ·)).map strip = l.map strip := by
  cases l with
  | nil => rfl
  | cons b l => rw [List.modifyHead_cons, List.map_cons, List.map_cons, strip_blank]

/-- The server reads the entries that were written. -/
theorem map_strip_splitOn {tags : List Bytes} (hne : tags ≠ [])
    (h : ∀ tag ∈ tags, ∀ x ∈ tag, Solid x) :
    (([44, 32] : Bytes).intercalate tags |>.splitOn 44).map strip = tags := by
  induction tags with
  | nil => exact absurd rfl hne
  | cons tag tags ih =>
    have hcomma : 44 ∉ tag := fun hmem => (h tag List.mem_cons_self 44 hmem).1 rfl
    have hstrip : strip tag = tag := strip_of_solid (h tag List.mem_cons_self)
    cases tags with
    | nil =>
      rw [List.intercalate_singleton, List.splitOn_eq_singleton hcomma, List.map_singleton, hstrip]
    | cons next tags =>
      have hrest := ih (List.cons_ne_nil _ _) fun t ht => h t (List.mem_cons_of_mem _ ht)
      rw [List.intercalate_cons_cons, List.append_assoc]
      change ((tag ++ 44 :: (32 :: ([44, 32] : Bytes).intercalate (next :: tags))).splitOn 44).map
        strip = _
      rw [List.splitOn_append_cons_self_of_not_mem hcomma, List.splitOn_cons_eq_if_modifyHead,
        if_neg (by decide), List.map_cons, map_strip_modifyHead, hstrip, hrest]

theorem bareTag_etag (f : File) : bareTag (etag f) = etag f := by
  rw [bareTag]
  refine if_neg fun h => ?_
  obtain ⟨t, ht⟩ := h
  cases ht

theorem bareTag_writtenTag (entry : Bool × File) : bareTag (writtenTag entry) = etag entry.2 := by
  rw [writtenTag]
  split
  · rw [bareTag]
    exact if_pos (List.prefix_append _ _)
  · exact bareTag_etag entry.2

/-- A list of tags holds no star. -/
theorem star_not_mem_intercalate (tags : List Bytes) (h : ∀ tag ∈ tags, ∀ x ∈ tag, Solid x) :
    (42 : UInt8) ∉ ([44, 32] : Bytes).intercalate tags := by
  induction tags with
  | nil => exact List.not_mem_nil
  | cons tag tags ih =>
    have htag : (42 : UInt8) ∉ tag := fun hmem => (h tag List.mem_cons_self 42 hmem).2.1 rfl
    cases tags with
    | nil =>
      rw [List.intercalate_singleton]
      exact htag
    | cons next tags =>
      have hrest := ih fun t ht => h t (List.mem_cons_of_mem _ ht)
      rw [List.intercalate_cons_cons, List.mem_append, List.mem_append, not_or, not_or]
      exact ⟨⟨htag, by decide⟩, hrest⟩

/-- A list of tags is not the one star that stands for every tag. -/
theorem strip_tagList_ne (entries : List (Bool × File)) : strip (tagList entries) ≠ [42] := by
  intro hstar
  have hmem : (42 : UInt8) ∈ strip (tagList entries) := by
    rw [hstar]
    exact List.mem_singleton_self 42
  apply star_not_mem_intercalate (entries.map writtenTag) (fun tag htag x hx => ?_)
    (List.dropWhile_subset _ ((List.rdropWhile_prefix _ _).subset hmem))
  obtain ⟨entry, -, rfl⟩ := List.mem_map.1 htag
  exact solid_of_mem_writtenTag hx

/-- A list of tags matches exactly if one of them belongs to the size and the time of the file. -/
theorem ifNoneMatchMatches_tagList (entries : List (Bool × File)) (f : File) :
    ifNoneMatchMatches (tagList entries) (etag f) = true ↔
      ∃ entry ∈ entries, entry.2.size = f.size ∧ entry.2.mtime_ns = f.mtime_ns := by
  rw [ifNoneMatchMatches, if_neg (strip_tagList_ne entries), bareTag_etag]
  cases hentries : entries with
  | nil => simp [tagList, strip, bareTag, etag]
  | cons first entries' =>
    -- no tag holds a comma or a blank, so the list is taken apart where it was put together
    have hread : ((tagList entries).splitOn 44).map strip = entries.map writtenTag := by
      refine map_strip_splitOn (by rw [hentries]; exact List.cons_ne_nil _ _)
        fun tag htag x hx => ?_
      obtain ⟨entry, -, rfl⟩ := List.mem_map.1 htag
      exact solid_of_mem_writtenTag hx
    rw [← hentries, List.any_eq_true]
    constructor
    · rintro ⟨b, hb, hmatch⟩
      have hmem : strip b ∈ entries.map writtenTag := hread ▸ List.mem_map_of_mem hb
      obtain ⟨entry, hentry, heq⟩ := List.mem_map.1 hmem
      have htag : etag entry.2 = etag f := by
        rw [← bareTag_writtenTag entry, heq]
        exact of_decide_eq_true hmatch
      exact ⟨entry, hentry, etag_eq_iff.1 htag⟩
    · rintro ⟨entry, hentry, hsame⟩
      have hmem : writtenTag entry ∈ ((tagList entries).splitOn 44).map strip :=
        hread ▸ List.mem_map_of_mem hentry
      obtain ⟨b, hb, heq⟩ := List.mem_map.1 hmem
      refine ⟨b, hb, decide_eq_true ?_⟩
      rw [heq, bareTag_writtenTag, etag_eq_iff.2 hsame]

/-- The only answer about a file that is a 304. -/
theorem serve_eq_notModified_iff (lib : Library) (cfg : Config) (req : Request) (target : Path)
    (f : File) : serve lib cfg req target f = .ok (sendNotModified lib cfg f) ↔
      notModified lib (headersIndex req.headers) f = true := by
  rcases serve_cases lib cfg req target f with ⟨hmodified, hserve⟩ | ⟨hmodified, hserve⟩ |
    ⟨hmodified, status, offset, length, hasked, hserve⟩
  · rw [hserve, hmodified]
    exact ⟨fun _ => rfl, fun _ => rfl⟩
  · rw [hserve, hmodified]
    refine ⟨fun h => ?_, fun h => absurd h Bool.false_ne_true⟩
    have hcode := congrArg (fun a => a.response.statusCode) (Except.ok.inj h)
    cases hcode
  · rw [hserve, hmodified]
    refine ⟨fun h => ?_, fun h => absurd h Bool.false_ne_true⟩
    have hcode : status ≠ 304 := by
      cases hasked <;> decide
    rw [sendPart] at h
    split at h
    · exact absurd (congrArg (fun a => a.response.statusCode) (Except.ok.inj h)) hcode
    · split at h
      · exact absurd (congrArg (fun a => a.response.statusCode) (Except.ok.inj h)) hcode
      · cases h

/-- For every request for a file that sends back a list of the tags it has been given, each of them
weakened or not: the answer is 304 exactly when one of the tags is that of a file of the same size
and time. -/
theorem revalidated_iff (lib : Library) (cfg : Config) (tree : FileTree File) (req : Request)
    (p : Path) (f : File)
    (entries : List (Bool × File)) (hmethod : req.method = getMethod ∨ req.method = headMethod)
    (hbelow : cfg.pathPrefix <+: req.path)
    (hresolve : resolve tree cfg.root (req.path.drop cfg.pathPrefix.length) cfg.index = .ok
      (some p))
    (hstat : tree.stat p = some (.regular f))
    (hheader : Dict.get? ifNoneMatchName (headersIndex req.headers) = some (tagList entries)) :
    handle lib cfg tree req = .ok (sendNotModified lib cfg f) ↔
      ∃ entry ∈ entries, entry.2.size = f.size ∧ entry.2.mtime_ns = f.mtime_ns := by
  have hserve : handle lib cfg tree req = serve lib cfg req p f := by
    rw [handle, if_neg (by tauto), if_neg (not_not.2 hbelow), hresolve]
    dsimp only
    rw [hstat]
  rw [hserve, serve_eq_notModified_iff, notModified, hheader]
  exact ifNoneMatchMatches_tagList entries f

/-- Two versions that a client has, the second with a weak tag. -/
def siteVersions : List (Bool × File) := [(false, ⟨[], 5, true⟩), (true, ⟨[0, 0], 0, true⟩)]

theorem revalidated_iff_page :
    handle plainLibrary siteConfig (siteTree [])
      (pageRequest [(ifNoneMatchName, tagList siteVersions)]) =
        .ok (sendNotModified plainLibrary siteConfig sitePage) ↔
      ∃ entry ∈ siteVersions, entry.2.size = sitePage.size ∧ entry.2.mtime_ns = sitePage.mtime_ns :=
  revalidated_iff plainLibrary siteConfig (siteTree []) _ [[115], [97]] sitePage siteVersions
    (.inl rfl) (by decide +kernel) (by decide +kernel) rfl (by decide +kernel)

end LocalPost.Http.Static
