import LocalPost.Http.Wsgi.Environ
import Mathlib.Data.List.Perm.Basic

/-!
# Environ and back

What `_build_wsgi_ctx` reads from an environ that `_build_environ` wrote. The path comes back
percent-decoded and a header name with its underscores turned to dashes; an empty `content-type` or
`content-length` is no header any more. With that, headers whose keys differ all come back.
-/

set_option autoImplicit false

namespace LocalPost.Http.Wsgi

open LocalPost.Core

/-- The bytes are ASCII. -/
def Ascii (b : Bytes) : Prop := b.all (fun x => x.toNat < 128) = true

instance (b : Bytes) : Decidable (Ascii b) := inferInstanceAs (Decidable (_ = _))

/-- What both servers make sure of: the head is ASCII but for path, query and header values, and
header names are in lower case. -/
structure Accepted (request : Request) : Prop where
  method : Ascii request.method
  httpVersion : Ascii request.httpVersion
  name : ∀ header ∈ request.headers, Ascii header.1
  lower : ∀ header ∈ request.headers, Bytes.lower header.1 = header.1

/-- A header name after the way through its key. -/
def dashed (name : Bytes) : Bytes := name.map fun x => if x = 95 then 45 else x

/-- The names with entries of their own. -/
def special (name : Bytes) : Bool := name = Bytes.contentTypeName || name = Bytes.contentLengthName

/-- A header that is not an empty `content-type` or `content-length`. -/
def present (header : Bytes × Bytes) : Bool := !(special header.1 && header.2.isEmpty)

/-! ## Keys of headers -/

/-- The key of a header with an ASCII name. -/
def keyOf (name : Bytes) : Str :=
  if name = Bytes.contentTypeName then "CONTENT_TYPE".toList
  else if name = Bytes.contentLengthName then "CONTENT_LENGTH".toList
  else decodeLatin1 (cgiKey name)

/-- The entry of a header. -/
def item (header : Bytes × Bytes) : Str × Str := (keyOf header.1, decodeLatin1 header.2)

/-- The key is one of a header proper. -/
def isHttp (key : Str) : Bool := "HTTP_".toList.isPrefixOf key

/-- A byte of a name in the key. -/
def cgiByte (b : UInt8) : UInt8 :=
  let u := if 97 ≤ b ∧ b ≤ 122 then b - 32 else b
  if u = 45 then 95 else u

theorem cgiKey_eq (name : Bytes) : cgiKey name = [72, 84, 84, 80, 95] ++ name.map cgiByte := by
  rw [cgiKey, Bytes.upper, List.map_map]
  rfl

theorem ascii_cgiByte : ∀ n < 128, (cgiByte (UInt8.ofNat n)).toNat < 128 := by
  decide +kernel

-- An upper-case byte would come back in lower case, so it is excluded.
theorem headerName_cgiByte : ∀ n < 128,
    (if 65 ≤ UInt8.ofNat n ∧ UInt8.ofNat n ≤ 90 then UInt8.ofNat n + 32 else UInt8.ofNat n) =
      UInt8.ofNat n →
    Char.toLower (if charOfByte (cgiByte (UInt8.ofNat n)) = '_' then '-'
      else charOfByte (cgiByte (UInt8.ofNat n))) =
      charOfByte (if UInt8.ofNat n = 95 then 45 else UInt8.ofNat n) := by
  decide +kernel

/-- The key of an ASCII name is ASCII. -/
theorem ascii_cgiKey {name : Bytes} (h : Ascii name) : Ascii (cgiKey name) := by
  rw [Ascii, List.all_eq_true] at *
  intro x hx
  rw [cgiKey_eq, List.mem_append] at hx
  rcases hx with hx | hx
  · revert x
    decide +kernel
  · obtain ⟨b, hb, rfl⟩ := List.mem_map.1 hx
    have hlt : b.toNat < 128 := by simpa using h b hb
    have hbyte := ascii_cgiByte b.toNat hlt
    rw [UInt8.ofNat_toNat] at hbyte
    simpa using hbyte

theorem headerKey_of_ascii {name : Bytes} (h : Ascii name) :
    headerKey name = some (keyOf name) := by
  rw [headerKey, keyOf]
  split
  · rfl
  · split
    · rfl
    · exact decodeAscii_eq_some_iff.2 ⟨ascii_cgiKey h, rfl⟩

/-- A name that has a proper header key comes back with dashes. -/
theorem headerName_cgiKey {name : Bytes} (h : Ascii name) (hlower : Bytes.lower name = name) :
    headerName (decodeLatin1 (cgiKey name)) = some (dashed name) := by
  have hdash : Ascii (dashed name) := by
    rw [Ascii, List.all_eq_true] at *
    intro x hx
    obtain ⟨b, hb, rfl⟩ := List.mem_map.1 hx
    have hlt : b.toNat < 128 := by simpa using h b hb
    split <;> simp [hlt]
  -- behind `HTTP_` stand the bytes of the name, in upper case and with underscores
  have hdrop : (decodeLatin1 (cgiKey name)).drop 5 = name.map (charOfByte ∘ cgiByte) := by
    rw [cgiKey_eq, decodeLatin1, List.map_append, List.map_map]
    rfl
  have htext : lowerText (((decodeLatin1 (cgiKey name)).drop 5).map
      fun c => if c = '_' then '-' else c) = decodeLatin1 (dashed name) := by
    rw [hdrop, lowerText, decodeLatin1, dashed, List.map_map, List.map_map, List.map_map]
    refine List.map_congr_left fun b hb => ?_
    have hlt : b.toNat < 128 := by
      rw [Ascii, List.all_eq_true] at h
      simpa using h b hb
    -- no byte of the name is an upper-case letter, so lowering it gives it back
    have hb' : (if 65 ≤ b ∧ b ≤ 90 then b + 32 else b) = b := by
      have hmap : name.map (fun x => if 65 ≤ x ∧ x ≤ 90 then x + 32 else x) = name.map id := by
        rw [List.map_id]
        exact hlower
      exact List.map_inj_left.1 hmap b hb
    have hbyte := headerName_cgiByte b.toNat hlt
    rw [UInt8.ofNat_toNat] at hbyte
    simp only [Function.comp_apply]
    exact hbyte hb'
  rw [headerName, htext, encodeAscii_decodeLatin1 hdash]

/-- A header becomes one of the `HTTP_` variables unless it is special. -/
theorem isHttp_keyOf (name : Bytes) : isHttp (keyOf name) = !special name := by
  rw [keyOf, special]
  by_cases ht : name = Bytes.contentTypeName
  · rw [if_pos ht, decide_eq_true ht, Bool.true_or]
    decide
  · rw [if_neg ht]
    by_cases hl : name = Bytes.contentLengthName
    · rw [if_pos hl, decide_eq_true hl, Bool.or_true]
      decide
    · have hprefix : "HTTP_".toList <+: decodeLatin1 (cgiKey name) :=
        ⟨decodeLatin1 (name.map cgiByte), by rw [cgiKey_eq, decodeLatin1_append]; rfl⟩
      rw [if_neg hl, decide_eq_false ht, decide_eq_false hl, isHttp,
        List.isPrefixOf_iff_prefix.2 hprefix]
      rfl

/-- No key of a header is one of the other entries that are read back. -/
theorem not_mem_keys_item {key : Str} (hhttp : isHttp key = false)
    (htype : key ≠ "CONTENT_TYPE".toList)
    (hlength : key ≠ "CONTENT_LENGTH".toList) (headers : List (Bytes × Bytes)) :
    key ∉ Dict.keys (headers.map item) := by
  rw [Dict.keys, List.map_map]
  intro hmem
  obtain ⟨header, -, rfl⟩ := List.mem_map.1 hmem
  rw [Function.comp_apply, item, isHttp_keyOf, Bool.not_eq_false', special, Bool.or_eq_true,
    decide_eq_true_iff, decide_eq_true_iff] at hhttp
  rcases hhttp with heq | heq
  · rw [Function.comp_apply, item, heq] at htype
    exact htype rfl
  · rw [Function.comp_apply, item, heq] at hlength
    exact hlength rfl

/-! ## The environ -/

/-- The loop over the headers sets their variables. -/
theorem foldlM_addHeader {headers : List (Bytes × Bytes)} (h : ∀ header ∈ headers, Ascii header.1)
    (vars : Dict Str Str) :
    headers.foldlM addHeader vars = some (Dict.setAll vars (headers.map item)) := by
  induction headers generalizing vars with
  | nil => rfl
  | cons header headers ih =>
    have hstep : addHeader vars header = some (Dict.set (item header).1 (item header).2 vars) := by
      rw [addHeader, headerKey_of_ascii (h header List.mem_cons_self)]
      rfl
    rw [List.foldlM_cons, hstep, List.map_cons, Dict.setAll_cons]
    exact ih (fun header' hmem => h header' (List.mem_cons_of_mem _ hmem)) _

/-- The entries for an accepted request. -/
def varsOf (ctx : Ctx) : Dict Str Str :=
  Dict.setAll
    (baseVars ctx (decodeLatin1 ctx.request.method) (decodeLatin1 ctx.request.httpVersion))
    (ctx.request.headers.map item)

theorem buildEnviron_of_accepted {ctx : Ctx} (h : Accepted ctx.request) (body : Bytes) :
    buildEnviron ctx body = some ⟨varsOf ctx, body⟩ := by
  rw [buildEnviron, decodeAscii_eq_some_iff.2 ⟨h.method, rfl⟩,
    decodeAscii_eq_some_iff.2 ⟨h.httpVersion, rfl⟩, Option.bind_some, Option.bind_some,
    foldlM_addHeader h.name]
  rfl

/-- The fixed entries, with those of the client behind them. -/
theorem exists_baseVars_eq (ctx : Ctx) (method version : Str) :
    ∃ host port client, (∀ e ∈ client, isHttp e.1 = false) ∧
      baseVars ctx method version =
        [("REQUEST_METHOD".toList, method), ("SCRIPT_NAME".toList, []),
          ("PATH_INFO".toList, decodeLatin1 (unquote ctx.request.path)),
          ("QUERY_STRING".toList, decodeLatin1 ctx.request.queryString),
          ("CONTENT_TYPE".toList, []),
          ("CONTENT_LENGTH".toList, []), ("SERVER_NAME".toList, host), ("SERVER_PORT".toList, port),
          ("SERVER_PROTOCOL".toList, "HTTP/".toList ++ version),
          ("wsgi.url_scheme".toList, ctx.scheme)] ++ client := by
  -- the server's name and port, with or without a colon in the address
  refine ⟨if (rpartition ctx.localAddr).1 = [] then ctx.localAddr else (rpartition ctx.localAddr).1,
    if (rpartition ctx.localAddr).1 = [] then [] else (rpartition ctx.localAddr).2, ?_⟩
  cases haddr : ctx.remoteAddr with
  | none =>
    refine ⟨[], by simp, ?_⟩
    rw [baseVars, haddr, List.append_nil]
  | some addr =>
    -- the peer's address with a port or without one
    by_cases hclient : (rpartition addr).1 ≠ []
    · refine ⟨[("REMOTE_ADDR".toList, (rpartition addr).1),
        ("REMOTE_PORT".toList, (rpartition addr).2)], ?_, ?_⟩
      · rintro e (_ | ⟨_, _ | ⟨_, ⟨⟩⟩⟩) <;> rfl
      · rw [baseVars, haddr]
        exact if_pos hclient
    · refine ⟨[("REMOTE_ADDR".toList, addr)], ?_, ?_⟩
      · rintro e (_ | ⟨_, ⟨⟩⟩)
        rfl
      · rw [baseVars, haddr]
        exact if_neg hclient

/-- The variables that do not come from headers. -/
theorem get?_baseVars (ctx : Ctx) (method version : Str) :
    Dict.get? "REQUEST_METHOD".toList (baseVars ctx method version) = some method ∧
    Dict.get? "PATH_INFO".toList (baseVars ctx method version) =
      some (decodeLatin1 (unquote ctx.request.path)) ∧
    Dict.get? "QUERY_STRING".toList (baseVars ctx method version) =
      some (decodeLatin1 ctx.request.queryString) ∧
    Dict.get? "CONTENT_TYPE".toList (baseVars ctx method version) = some [] ∧
    Dict.get? "CONTENT_LENGTH".toList (baseVars ctx method version) = some [] ∧
    Dict.get? "SERVER_PROTOCOL".toList (baseVars ctx method version) =
      some ("HTTP/".toList ++ version) := by
  obtain ⟨host, port, client, -, heq⟩ := exists_baseVars_eq ctx method version
  rw [heq]
  exact ⟨rfl, rfl, rfl, rfl, rfl, rfl⟩

/-- None of the variables that do not come from headers begins with `HTTP_`. -/
theorem isHttp_baseVars (ctx : Ctx) (method version : Str) :
    ∀ e ∈ baseVars ctx method version, isHttp e.1 = false := by
  obtain ⟨host, port, client, hclient, heq⟩ := exists_baseVars_eq ctx method version
  rw [heq]
  intro e he
  rcases List.mem_append.1 he with he | he
  · have hkeys : ∀ key ∈ ["REQUEST_METHOD", "SCRIPT_NAME", "PATH_INFO", "QUERY_STRING",
        "CONTENT_TYPE", "CONTENT_LENGTH", "SERVER_NAME", "SERVER_PORT", "SERVER_PROTOCOL",
        "wsgi.url_scheme"], isHttp key.toList = false := by
      decide
    simp only [List.mem_cons, List.not_mem_nil, or_false] at he
    rcases he with rfl | rfl | rfl | rfl | rfl | rfl | rfl | rfl | rfl | rfl <;>
      exact hkeys _ (by simp)
  · exact hclient e he

/-! ## Reading the headers back -/

theorem httpHeaders_cons_of_not {e : Str × Str} (h : isHttp e.1 = false) (vars : Dict Str Str) :
    httpHeaders (e :: vars) = httpHeaders vars := by
  obtain ⟨key, value⟩ := e
  rw [httpHeaders, if_neg]
  rw [← Bool.not_eq_true] at h
  exact h

/-- A variable that comes from a header is read back as the header. -/
theorem httpHeaders_item_cons {header : Bytes × Bytes} (hname : Ascii header.1)
    (hlower : Bytes.lower header.1 = header.1) (h : isHttp (item header).1 = true)
    (vars : Dict Str Str) :
    httpHeaders (item header :: vars) =
      (httpHeaders vars).map fun headers => (dashed header.1, header.2) :: headers := by
  have hspecial : special header.1 = false := by
    have hkey := isHttp_keyOf header.1
    rw [item] at h
    rw [h] at hkey
    simpa using hkey.symm
  have hkey : keyOf header.1 = decodeLatin1 (cgiKey header.1) := by
    rw [special, Bool.or_eq_false_iff, decide_eq_false_iff_not, decide_eq_false_iff_not] at hspecial
    rw [keyOf, if_neg hspecial.1, if_neg hspecial.2]
  have hitem : item header = (decodeLatin1 (cgiKey header.1), decodeLatin1 header.2) := by
    rw [item, hkey]
  rw [hitem] at h ⊢
  rw [httpHeaders]
  refine (if_pos h).trans ?_
  rw [headerName_cgiKey hname hlower, encodeLatin1_decodeLatin1]
  rfl

/-- Only the `HTTP_` variables count for the headers. -/
theorem httpHeaders_filter (vars : Dict Str Str) :
    httpHeaders vars = httpHeaders (vars.filter fun e => isHttp e.1) := by
  induction vars with
  | nil => rfl
  | cons e vars ih =>
    cases he : isHttp e.1 with
    | false => rw [httpHeaders_cons_of_not he, List.filter_cons_of_neg (by simp [he]), ih]
    | true =>
      obtain ⟨key, value⟩ := e
      rw [List.filter_cons_of_pos (by exact he), httpHeaders, httpHeaders, ih]

/-- Entries of accepted headers are read back, whichever they are. -/
theorem exists_httpHeaders {vars : Dict Str Str}
    (h : ∀ e ∈ vars, isHttp e.1 = true →
      ∃ header, Ascii header.1 ∧ Bytes.lower header.1 = header.1 ∧ e = item header) :
    ∃ headers, httpHeaders vars = some headers := by
  induction vars with
  | nil => exact ⟨[], rfl⟩
  | cons e vars ih =>
    obtain ⟨headers, hrest⟩ := ih fun e' he' => h e' (List.mem_cons_of_mem _ he')
    cases he : isHttp e.1 with
    | false => exact ⟨headers, by rw [httpHeaders_cons_of_not he, hrest]⟩
    | true =>
      obtain ⟨header, hname, hlower, rfl⟩ := h e List.mem_cons_self he
      exact ⟨_, by rw [httpHeaders_item_cons hname hlower he, hrest]; rfl⟩

/-- The variables of the headers are read back as the headers that are not special. -/
theorem httpHeaders_items {headers : List (Bytes × Bytes)}
    (hname : ∀ header ∈ headers, Ascii header.1)
    (hlower : ∀ header ∈ headers, Bytes.lower header.1 = header.1) :
    httpHeaders ((headers.map item).filter fun e => isHttp e.1) =
      some ((headers.filter fun header => !special header.1).map
        fun header => (dashed header.1, header.2)) := by
  induction headers with
  | nil => rfl
  | cons header headers ih =>
    have hrest := ih (fun h' hmem => hname h' (List.mem_cons_of_mem _ hmem))
      fun h' hmem => hlower h' (List.mem_cons_of_mem _ hmem)
    have hkey : isHttp (item header).1 = !special header.1 := isHttp_keyOf header.1
    rw [List.map_cons]
    cases hspecial : special header.1 with
    | true =>
      rw [hspecial] at hkey
      rw [List.filter_cons_of_neg (by simp [hkey]), List.filter_cons_of_neg
        (by simp [hspecial]), hrest]
    | false =>
      rw [hspecial] at hkey
      rw [List.filter_cons_of_pos (by exact hkey), List.filter_cons_of_pos (by simp [hspecial]),
        httpHeaders_item_cons (hname _ List.mem_cons_self)
          (hlower _ List.mem_cons_self) hkey, hrest]
      rfl

/-- A special variable is read back unless it is empty. -/
theorem specialHeader_of_get? (env : Environ) {key : String} {value : Bytes}
    (h : Dict.get? key.toList env.vars = some (decodeLatin1 value)) (name : Bytes) :
    specialHeader env key name = some (if value = [] then [] else [(name, value)]) := by
  rw [specialHeader, h]
  cases value with
  | nil => rfl
  | cons x value =>
    have hne : Option.filter (fun s : Str => decide (s ≠ [])) (some (decodeLatin1 (x :: value))) =
        some (decodeLatin1 (x :: value)) := rfl
    rw [hne]
    simp only [encodeLatin1_decodeLatin1]
    rfl

/-- Where the entries before the headers are not those of a header, they stay as they were. -/
theorem get?_varsOf {key : Str} (hhttp : isHttp key = false) (htype : key ≠ "CONTENT_TYPE".toList)
    (hlength : key ≠ "CONTENT_LENGTH".toList) (ctx : Ctx) :
    Dict.get? key (varsOf ctx) =
      Dict.get? key (baseVars ctx (decodeLatin1 ctx.request.method)
        (decodeLatin1 ctx.request.httpVersion)) :=
  Dict.get?_setAll_of_not_mem (not_mem_keys_item hhttp htype hlength _) _

/-- A variable that is there by default stays there, whatever the headers set. -/
theorem exists_get?_varsOf {key : Str} {ctx : Ctx}
    (h : Dict.get? key (baseVars ctx (decodeLatin1 ctx.request.method)
      (decodeLatin1 ctx.request.httpVersion)) = some []) :
    ∃ value, Dict.get? key (varsOf ctx) = some (decodeLatin1 value) := by
  have hheaders : ∀ e ∈ ctx.request.headers.map item, ∃ value, e.2 = decodeLatin1 value := by
    intro e he
    obtain ⟨header, -, rfl⟩ := List.mem_map.1 he
    exact ⟨header.2, rfl⟩
  obtain ⟨x, hget, value, rfl⟩ :=
    Dict.get?_setAll_inv (P := fun x => ∃ value, x = decodeLatin1 value) ⟨[], h, [], rfl⟩ hheaders
  exact ⟨value, hget⟩

theorem protocolVersion_http (version : Bytes) (h : Ascii version) :
    protocolVersion ("HTTP/".toList ++ decodeLatin1 version) = some version := by
  rw [protocolVersion, if_pos (by simp)]
  exact encodeAscii_decodeLatin1 h

/-- What is read back, given the headers that are. -/
theorem buildWsgiCtx_varsOf {ctx : Ctx} (h : Accepted ctx.request) (body : Bytes)
    {contentType contentLength : Bytes} {headers : List (Bytes × Bytes)}
    (htype : Dict.get? "CONTENT_TYPE".toList (varsOf ctx) = some (decodeLatin1 contentType))
    (hlength : Dict.get? "CONTENT_LENGTH".toList (varsOf ctx) = some (decodeLatin1 contentLength))
    (hheaders : httpHeaders (varsOf ctx) = some headers) :
    ∃ back, buildWsgiCtx ⟨varsOf ctx, body⟩ = some back ∧
      back.request.method = ctx.request.method ∧
      back.request.path = unquote ctx.request.path ∧
      back.request.queryString = ctx.request.queryString ∧
      back.request.httpVersion = ctx.request.httpVersion ∧
      back.request.headers =
        (if contentType = [] then [] else [(Bytes.contentTypeName, contentType)]) ++
        (if contentLength = [] then [] else [(Bytes.contentLengthName, contentLength)]) ++
        headers := by
  obtain ⟨hmethod, hpath, hquery, -, -, hproto⟩ := get?_baseVars ctx
    (decodeLatin1 ctx.request.method) (decodeLatin1 ctx.request.httpVersion)
  rw [← get?_varsOf (by decide) (by decide) (by decide)] at hmethod hpath hquery hproto
  -- each variable is found under its own key
  have hget : ∀ key default value, Dict.get? (String.toList key) (varsOf ctx) = some value →
      getVar ⟨varsOf ctx, body⟩ key default = value := by
    intro key default value hkey
    rw [getVar, hkey, Option.getD_some]
  rw [buildWsgiCtx, hget _ _ _ hmethod, hget _ _ _ hpath, hget _ _ _ hquery, hget _ _ _ hproto,
    encodeAscii_decodeLatin1 h.method, encodeLatin1_decodeLatin1, encodeLatin1_decodeLatin1,
    specialHeader_of_get? ⟨varsOf ctx, body⟩ htype,
    specialHeader_of_get? ⟨varsOf ctx, body⟩ hlength, hheaders,
    protocolVersion_http _ h.httpVersion]
  exact ⟨_, rfl, rfl, rfl, rfl, rfl, rfl⟩

/-! ## Headers with different keys -/

/-- A special key comes from its header only. -/
theorem keyOf_eq_special {name name' : Bytes} (h : special name = true)
    (heq : keyOf name' = keyOf name) : name' = name := by
  have hspecial : special name' = true := by
    have hhttp := isHttp_keyOf name'
    rw [heq, isHttp_keyOf, h] at hhttp
    simpa using hhttp.symm
  rw [special, Bool.or_eq_true, decide_eq_true_iff, decide_eq_true_iff] at h hspecial
  rcases h with rfl | rfl <;> rcases hspecial with rfl | rfl
  · rfl
  · exact absurd heq (by decide)
  · exact absurd heq (by decide)
  · rfl

/-- Under a special key stands the header of that name. -/
theorem get?_items {name : Bytes} (h : special name = true) (headers : List (Bytes × Bytes)) :
    Dict.get? (keyOf name) (headers.map item) = (Dict.get? name headers).map decodeLatin1 := by
  induction headers with
  | nil => rfl
  | cons header headers ih =>
    rw [List.map_cons, Dict.get?_cons, Dict.get?_cons, ih]
    by_cases hname : header.1 = name
    · rw [if_pos hname, if_pos (by rw [item, hname])]
      rfl
    · have hkey : ¬(item header).1 = keyOf name := fun heq => hname (keyOf_eq_special h heq)
      rw [if_neg hname, if_neg hkey]

/-- A special variable has the value of its header, or none. -/
theorem get?_varsOf_special {name : Bytes} (h : special name = true) {ctx : Ctx}
    (hkeys : (Dict.keys (ctx.request.headers.map item)).Nodup) :
    Dict.get? (keyOf name) (varsOf ctx) =
      some (decodeLatin1 ((Dict.get? name ctx.request.headers).getD [])) := by
  have hbase : Dict.get? (keyOf name) (baseVars ctx (decodeLatin1 ctx.request.method)
      (decodeLatin1 ctx.request.httpVersion)) = some [] := by
    obtain ⟨-, -, -, htype, hlength, -⟩ := get?_baseVars ctx
      (decodeLatin1 ctx.request.method) (decodeLatin1 ctx.request.httpVersion)
    rw [special, Bool.or_eq_true, decide_eq_true_iff, decide_eq_true_iff] at h
    rcases h with rfl | rfl
    · exact htype
    · exact hlength
  rw [varsOf, Dict.get?_setAll hkeys, hbase, get?_items h]
  cases Dict.get? name ctx.request.headers with
  | none => rfl
  | some value => rfl

/-- The headers of one special name that are read back. -/
theorem filter_special {name : Bytes} (h : special name = true) {headers : List (Bytes × Bytes)}
    (hnames : (Dict.keys headers).Nodup) :
    (headers.filter present).filter (fun header => header.1 = name) =
      if (Dict.get? name headers).getD [] = [] then []
      else [(name, (Dict.get? name headers).getD [])] := by
  have hcomm : (headers.filter present).filter (fun header => header.1 = name) =
      (headers.filter fun header => header.1 = name).filter present := by
    rw [List.filter_filter, List.filter_filter]
    refine List.filter_congr fun header _ => Bool.and_comm _ _
  rw [hcomm, Dict.filter_key hnames]
  cases Dict.get? name headers with
  | none => rfl
  | some value =>
    cases value with
    | nil => simp [present, h]
    | cons x value => simp [present]

/-- The headers are those of the two special names and the others. -/
theorem perm_special (headers : List (Bytes × Bytes)) :
    (headers.filter present).Perm
      ((headers.filter present).filter (fun header => header.1 = Bytes.contentTypeName) ++
        (headers.filter present).filter (fun header => header.1 = Bytes.contentLengthName) ++
        headers.filter fun header => !special header.1) := by
  refine (List.filter_append_perm
    (fun header => decide (header.1 = Bytes.contentTypeName)) _).symm.trans ?_
  rw [List.append_assoc]
  refine List.Perm.append_left _ ?_
  refine (List.filter_append_perm
    (fun header => decide (header.1 = Bytes.contentLengthName)) _).symm.trans ?_
  rw [List.filter_filter, List.filter_filter, List.filter_filter, List.filter_filter,
    List.filter_filter]
  refine List.Perm.append (List.Perm.of_eq ?_) (List.Perm.of_eq ?_)
  · refine List.filter_congr fun header _ => ?_
    -- The two names differ.
    by_cases hlength : header.1 = Bytes.contentLengthName
    · rw [hlength]
      rfl
    · simp [hlength]
  · refine List.filter_congr fun header _ => ?_
    by_cases htype : header.1 = Bytes.contentTypeName <;> by_cases hlength :
      header.1 = Bytes.contentLengthName
    all_goals simp [special, present, htype, hlength]

/-- A special name has no underscore. -/
theorem dashed_special {name : Bytes} (h : special name = true) : dashed name = name := by
  rw [special, Bool.or_eq_true, decide_eq_true_iff, decide_eq_true_iff] at h
  rcases h with rfl | rfl
  · decide
  · decide

theorem map_dashed_special {name : Bytes} (h : special name = true)
    (headers : List (Bytes × Bytes)) :
    (headers.filter fun header => header.1 = name).map (fun header => (dashed header.1, header.2)) =
      headers.filter fun header => header.1 = name := by
  refine (List.map_congr_left fun header hmem => ?_).trans (List.map_id _)
  have hname : header.1 = name := by simpa using (List.mem_filter.1 hmem).2
  rw [hname, dashed_special h, ← hname]
  rfl

/-- Headers with distinct keys have distinct names. -/
theorem nodup_of_headerKey {headers : List (Bytes × Bytes)}
    (hname : ∀ header ∈ headers, Ascii header.1)
    (h : (headers.map fun header => headerKey header.1).Nodup) :
    (Dict.keys (headers.map item)).Nodup ∧ (Dict.keys headers).Nodup := by
  have hsome : headers.map (fun header => headerKey header.1) =
      (Dict.keys (headers.map item)).map some := by
    rw [Dict.keys, List.map_map, List.map_map]
    exact List.map_congr_left fun header hmem => headerKey_of_ascii (hname header hmem)
  have hnames : headers.map (fun header => headerKey header.1) =
      (Dict.keys headers).map headerKey := by
    rw [Dict.keys, List.map_map]
    rfl
  constructor
  · rw [hsome] at h
    exact h.of_map some
  · rw [hnames] at h
    exact h.of_map headerKey

/-- The headers that are read back are those that were sent and are not special. -/
theorem httpHeaders_varsOf {ctx : Ctx} (h : Accepted ctx.request)
    (hkeys : (Dict.keys (ctx.request.headers.map item)).Nodup) :
    httpHeaders (varsOf ctx) =
      some ((ctx.request.headers.filter fun header => !special header.1).map
        fun header => (dashed header.1, header.2)) := by
  have hbase := isHttp_baseVars ctx (decodeLatin1 ctx.request.method)
    (decodeLatin1 ctx.request.httpVersion)
  have hnew : ∀ key ∈ Dict.keys (ctx.request.headers.map item), key ∈ Dict.keys (baseVars ctx
      (decodeLatin1 ctx.request.method) (decodeLatin1 ctx.request.httpVersion)) →
      isHttp key = false := by
    intro key _ hmem
    obtain ⟨e, he, rfl⟩ := List.mem_map.1 hmem
    exact hbase e he
  have hnone : (baseVars ctx (decodeLatin1 ctx.request.method)
      (decodeLatin1 ctx.request.httpVersion)).filter (fun e => isHttp e.1) = [] :=
    List.filter_eq_nil_iff.2 fun e he => by simp [hbase e he]
  rw [httpHeaders_filter, varsOf, Dict.filter_setAll hkeys hnew, hnone, List.nil_append,
    httpHeaders_items h.name h.lower]

/-- The method, the query string and the version come back from every accepted request, the path
percent-decoded; and so do the headers where no two share a key, up to their order, with dashes for
underscores in the names and without an empty `content-type` or `content-length`. -/
theorem buildWsgiCtx_buildEnviron (ctx : Ctx) (body : Bytes) (h : Accepted ctx.request) :
    ∃ env back, buildEnviron ctx body = some env ∧ env.input = body ∧
      buildWsgiCtx env = some back ∧
      back.request.method = ctx.request.method ∧
      back.request.path = unquote ctx.request.path ∧
      back.request.queryString = ctx.request.queryString ∧
      back.request.httpVersion = ctx.request.httpVersion ∧
      ((ctx.request.headers.map fun header => headerKey header.1).Nodup →
        back.request.headers.Perm
          ((ctx.request.headers.filter present).map fun header =>
            (dashed header.1, header.2))) := by
  -- the variables that start with `HTTP_` are those of the headers
  have hitems : ∀ e ∈ varsOf ctx, isHttp e.1 = true →
      ∃ header, Ascii header.1 ∧ Bytes.lower header.1 = header.1 ∧ e = item header := by
    intro e he hhttp
    rcases Dict.mem_setAll he with he | he
    · rw [isHttp_baseVars ctx _ _ e he] at hhttp
      cases hhttp
    · obtain ⟨header, hmem, rfl⟩ := List.mem_map.1 he
      exact ⟨header, h.name header hmem, h.lower header hmem, rfl⟩
  obtain ⟨-, -, -, hbaseType, hbaseLength, -⟩ := get?_baseVars ctx
    (decodeLatin1 ctx.request.method) (decodeLatin1 ctx.request.httpVersion)
  obtain ⟨contentType, htype⟩ := exists_get?_varsOf hbaseType
  obtain ⟨contentLength, hlength⟩ := exists_get?_varsOf hbaseLength
  obtain ⟨headers, hheaders⟩ := exists_httpHeaders hitems
  obtain ⟨back, hback, hm, hp, hq, hv, hh⟩ :=
    buildWsgiCtx_varsOf h body htype hlength hheaders
  -- with distinct keys no header replaces another one
  refine ⟨_, back, buildEnviron_of_accepted h body, rfl, hback, hm, hp, hq, hv, fun hdistinct => ?_⟩
  obtain ⟨hkeys, hnames⟩ := nodup_of_headerKey h.name hdistinct
  have htype' := get?_varsOf_special (show special Bytes.contentTypeName = true from rfl) hkeys
  have hlength' := get?_varsOf_special (show special Bytes.contentLengthName = true from rfl) hkeys
  have hct : contentType = _ := decodeLatin1_injective (Option.some.inj (htype.symm.trans htype'))
  have hcl : contentLength = _ :=
    decodeLatin1_injective (Option.some.inj (hlength.symm.trans hlength'))
  rw [httpHeaders_varsOf h hkeys, Option.some.injEq] at hheaders
  rw [hh, hct, hcl, ← hheaders, ← filter_special rfl hnames, ← filter_special rfl hnames]
  -- the headers come back in another order: the two special ones first
  refine List.Perm.trans (List.Perm.of_eq ?_) ((perm_special ctx.request.headers).symm.map _)
  rw [List.map_append, List.map_append, map_dashed_special rfl, map_dashed_special rfl]

/-- `GET /a%2Fb?q` with the headers `content-type:` and `x_a: 1`. -/
def encodedSlash : Ctx where
  request :=
    { method := [71, 69, 84]
      target := [47, 97, 37, 50, 70, 98, 63, 113]
      path := [47, 97, 37, 50, 70, 98]
      queryString := [113]
      headers := [(Bytes.contentTypeName, []), ([120, 95, 97], [49])]
      httpVersion := [49, 46, 49] }
  remoteAddr := none
  localAddr := "0.0.0.0:80".toList
  scheme := "http".toList

theorem accepted_encodedSlash : Accepted encodedSlash.request :=
  ⟨by decide, by decide, by decide, by decide⟩

/-- The slash comes back decoded, the empty header not at all and the other one renamed. -/
theorem encodedSlash_changed :
    Accepted encodedSlash.request ∧
      ¬∃ env back, buildEnviron encodedSlash [] = some env ∧ buildWsgiCtx env = some back ∧
        (back.request.path = encodedSlash.request.path ∨
          back.request.headers.Perm encodedSlash.request.headers) := by
  refine ⟨accepted_encodedSlash, ?_⟩
  rintro ⟨env, back, henv, hback, hsame⟩
  have hread : (buildEnviron encodedSlash []).bind buildWsgiCtx = some back := by
    rw [henv, Option.bind_some, hback]
  have hpath := congrArg (Option.map fun back => back.request.path) hread
  have hheaders := congrArg (Option.map fun back => back.request.headers.length) hread
  rcases hsame with hsame | hperm
  · rw [Option.map_some, hsame] at hpath
    exact absurd hpath (by decide)
  · rw [Option.map_some, hperm.length_eq] at hheaders
    exact absurd hheaders (by decide)

theorem encodedSlash_read_back :
    ∃ env back, buildEnviron encodedSlash [1] = some env ∧ env.input = [1] ∧
      buildWsgiCtx env = some back ∧
      back.request.method = [71, 69, 84] ∧ back.request.path = [47, 97, 47, 98] ∧
      back.request.queryString = [113] ∧ back.request.httpVersion = [49, 46, 49] ∧
      back.request.headers.Perm [([120, 45, 97], [49])] := by
  obtain ⟨env, back, henv, hin, hback, hm, hp, hq, hv, hh⟩ :=
    buildWsgiCtx_buildEnviron encodedSlash [1] accepted_encodedSlash
  have hpath : unquote encodedSlash.request.path = [47, 97, 47, 98] := by decide
  have hkeys :
      (encodedSlash.request.headers.map fun header => headerKey header.1).Nodup := by decide
  exact ⟨env, back, henv, hin, hback, hm, hp.trans hpath, hq, hv, hh hkeys⟩

end LocalPost.Http.Wsgi
