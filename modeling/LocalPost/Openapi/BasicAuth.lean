import LocalPost.Core.Base64
import LocalPost.Core.Text
import LocalPost.Core.Utf8
import LocalPost.Http.Types

/-!
# Basic credentials

`HttpBasicAuth` takes the `Authorization` header apart by three decoders: ISO-8859-1 in
`FromHeader`, base64, and UTF-8. It catches `binascii.Error` and `UnicodeDecodeError`. But
`b64decode` of a `str` first encodes it as ASCII, and raises a plain `ValueError` where that fails
(`latin1_raises`). And the strict mode of base64 takes encodings whose last digit has spare bits, so
that several headers carry one credential.

`basic_exact_iff` says for which headers the parsing is exact. `AsyncHttpBasicAuth` has the same
function, with an `await` at the validator and at `call_next`.
-/

set_option autoImplicit false

namespace LocalPost.Openapi.Auth

open LocalPost.Core LocalPost.Http

/-- What a validator does with credentials: a principal, `None`, or an exception of its own. -/
inductive Verdict where
  | principal
  | none
  | raises
  deriving DecidableEq, Repr

/-- The exceptions. -/
inductive Exn where
  | valueError
  | binasciiError
  | unicodeDecodeError
  | validator
  deriving DecidableEq, Repr

/-- What the function of an auth middleware ends with: `Unauthorized` with its body and headers,
`call_next(ctx)`, or an exception. -/
inductive Reply where
  | unauthorized (body : Str) (headers : List (Str × Str))
  | next
  | raises (e : Exn)
  deriving DecidableEq, Repr

/-- `FromHeader("Authorization")` with the default `""`. -/
def authorization (headers : List (Bytes × Bytes)) : Str :=
  match headers.find? fun header => encodeAscii "authorization".toList = some header.1 with
  | none => []
  | some header => decodeLatin1 header.2

/-- `:`. -/
def colon : Utf8.CodePoint := .scalar ':'

/-- `partition(":")`, where there is one. -/
def partition (text : Utf8.Text) : Option (Utf8.Text × Utf8.Text) :=
  match text.dropWhile fun c => c ≠ colon with
  | [] => none
  | _ :: rest => some (text.takeWhile fun c => c ≠ colon, rest)

/-- `b64decode(s, validate=True)` of a `str`; `excess` as in `Base64.groups`. -/
def b64decode (excess : Bool) (s : Str) : Except Exn Bytes :=
  match encodeAscii s with
  | none => .error .valueError
  | some bs =>
    match Base64.a2b excess bs with
    | none => .error .binasciiError
    | some decoded => .ok decoded

/-- `.decode("utf-8")`. -/
def decodeUtf8 (bs : Bytes) : Except Exn Utf8.Text :=
  match Utf8.decode bs with
  | none => .error .unicodeDecodeError
  | some text => .ok text

/-- `HttpBasicAuth` and `AsyncHttpBasicAuth`. -/
structure HttpBasicAuth where
  validator : Utf8.Text → Utf8.Text → Verdict
  scheme_name : Str
  realm : Str

namespace HttpBasicAuth

/-- `challenge`. -/
def challenge (auth : HttpBasicAuth) : List (Str × Str) :=
  [("WWW-Authenticate".toList, "Basic realm=\"".toList ++ auth.realm ++ "\"".toList)]

/-- `_basic`: the credentials with which the validator is called, and the reply. -/
def basic (auth : HttpBasicAuth) (excess : Bool) (authorization : Str) :
    Option (Utf8.Text × Utf8.Text) × Reply :=
  if "Basic ".toList.isPrefixOf authorization then
    match b64decode excess (authorization.drop 6) >>= decodeUtf8 with
    | .error .binasciiError =>
      (none, .unauthorized "Malformed Basic credentials".toList auth.challenge)
    | .error .unicodeDecodeError =>
      (none, .unauthorized "Malformed Basic credentials".toList auth.challenge)
    | .error e => (none, .raises e)
    | .ok decoded =>
      match partition decoded with
      | none => (none, .unauthorized "Malformed Basic credentials".toList auth.challenge)
      | some (username, password) =>
        match auth.validator username password with
        | .raises => (some (username, password), .raises .validator)
        | .none =>
          (some (username, password), .unauthorized "Invalid credentials".toList auth.challenge)
        | .principal => (some (username, password), .next)
  else (none, .unauthorized "Missing or malformed Authorization header".toList auth.challenge)

end HttpBasicAuth

/-! ## What the parsing is to do -/

/-- The header carries these credentials. -/
def Carries (authorization : Str) (username password : Utf8.Text) : Prop :=
  colon ∉ username ∧ ∃ bs, Utf8.encode (username ++ colon :: password) = some bs ∧
    authorization = "Basic ".toList ++ decodeLatin1 (Base64.encode bs)

/-- The parsing is exact and total: no exception but the validator's, the validator is called with
the credentials that the header carries, and a header without credentials is answered 401 with the
challenge. -/
structure Exact (auth : HttpBasicAuth) (excess : Bool) (authorization : Str) : Prop where
  total : ∀ e, (auth.basic excess authorization).2 = .raises e → e = .validator
  calls : ∀ username password, (auth.basic excess authorization).1 = some (username, password) ↔
    Carries authorization username password
  otherwise : (∀ username password, ¬Carries authorization username password) →
    (auth.basic excess authorization).1 = none ∧
      ∃ body, (auth.basic excess authorization).2 = .unauthorized body auth.challenge

/-- The credentials in base64. -/
def credentials (excess : Bool) (bs : Bytes) : Option (Utf8.Text × Utf8.Text) :=
  ((Base64.a2b excess bs).bind Utf8.decode).bind partition

/-- The condition: what stands behind `Basic ` is ASCII, and is canonical base64 if there are
credentials in it. -/
def Plain (excess : Bool) (authorization : Str) : Prop :=
  ∀ rest, authorization = "Basic ".toList ++ rest →
    ∃ bs, encodeAscii rest = some bs ∧ (Base64.Canonical bs ∨ credentials excess bs = none)

/-! ## Partition -/

/-- A text is parted at its first colon. -/
theorem partition_eq_some_iff {text username password : Utf8.Text} :
    partition text = some (username, password) ↔
      text = username ++ colon :: password ∧ colon ∉ username := by
  unfold partition
  constructor
  · intro h
    have hjoin := List.takeWhile_append_dropWhile (p := fun c => decide (c ≠ colon)) (l := text)
    have hnot : colon ∉ text.takeWhile fun c => decide (c ≠ colon) := by
      intro hmem
      have hne := List.mem_takeWhile_imp hmem
      simp at hne
    cases hdrop : text.dropWhile fun c => decide (c ≠ colon) with
    | nil =>
      rw [hdrop] at h
      cases h
    | cons c rest =>
      rw [hdrop] at h hjoin
      cases h
      -- the rest begins with the colon at which the name ends
      have hc : c = colon := by
        have hhead := List.head?_dropWhile_not (fun c => decide (c ≠ colon)) text
        rw [hdrop] at hhead
        simpa using hhead
      rw [hc] at hjoin
      exact ⟨hjoin.symm, hnot⟩
  · rintro ⟨rfl, hnot⟩
    have hall : ∀ c ∈ username, decide (c ≠ colon) = true := by
      intro c hc
      rw [decide_eq_true_eq]
      rintro rfl
      exact hnot hc
    rw [List.dropWhile_append_of_pos hall, List.takeWhile_append_of_pos hall]
    simp

/-! ## The cases of `_basic` -/

variable {auth : HttpBasicAuth} {excess : Bool}

theorem basic_prefix_missing {authorization : Str} (h : ¬"Basic ".toList <+: authorization) :
    auth.basic excess authorization =
      (none, .unauthorized "Missing or malformed Authorization header".toList auth.challenge) := by
  rw [HttpBasicAuth.basic, if_neg]
  rw [List.isPrefixOf_iff_prefix]
  exact h

/-- Behind `Basic ` the rest is decoded. -/
theorem basic_prefix (rest : Str) :
    "Basic ".toList.isPrefixOf ("Basic ".toList ++ rest) = true ∧
      ("Basic ".toList ++ rest).drop 6 = rest := by
  refine ⟨?_, rfl⟩
  rw [List.isPrefixOf_iff_prefix]
  exact List.prefix_append _ _

theorem basic_not_ascii {rest : Str} (h : encodeAscii rest = none) :
    auth.basic excess ("Basic ".toList ++ rest) = (none, .raises .valueError) := by
  obtain ⟨hbasic, hdrop⟩ := basic_prefix rest
  rw [HttpBasicAuth.basic, if_pos hbasic, hdrop, b64decode, h]
  rfl

/-- What the two decoders make of ASCII. -/
theorem decode_ascii {rest : Str} {bs : Bytes} (hbs : encodeAscii rest = some bs) :
    (Base64.a2b excess bs = none ∧
      (b64decode excess rest >>= decodeUtf8) = .error .binasciiError) ∨
    (∃ decoded, Base64.a2b excess bs = some decoded ∧ Utf8.decode decoded = none ∧
      (b64decode excess rest >>= decodeUtf8) = .error .unicodeDecodeError) ∨
    ∃ text, (Base64.a2b excess bs).bind Utf8.decode = some text ∧
      (b64decode excess rest >>= decodeUtf8) = .ok text := by
  unfold b64decode
  rw [hbs]
  dsimp only
  cases hdecoded : Base64.a2b excess bs with
  | none => exact .inl ⟨rfl, rfl⟩
  | some decoded =>
    right
    have hbind : ((.ok decoded : Except Exn Bytes) >>= decodeUtf8) = decodeUtf8 decoded := rfl
    rw [hbind, decodeUtf8]
    cases htext : Utf8.decode decoded with
    | none => exact .inl ⟨decoded, rfl, htext, rfl⟩
    | some text => exact .inr ⟨text, by rw [Option.bind_some, htext], rfl⟩

/-- Base64 that holds no credentials. -/
theorem basic_malformed {rest : Str} {bs : Bytes} (hbs : encodeAscii rest = some bs)
    (h : credentials excess bs = none) :
    auth.basic excess ("Basic ".toList ++ rest) =
      (none, .unauthorized "Malformed Basic credentials".toList auth.challenge) := by
  obtain ⟨hbasic, hdrop⟩ := basic_prefix rest
  rw [HttpBasicAuth.basic, if_pos hbasic, hdrop]
  rcases decode_ascii hbs with ⟨-, hresult⟩ | ⟨decoded, -, -, hresult⟩ | ⟨text, htext, hresult⟩
  · rw [hresult]
  · rw [hresult]
  · rw [credentials, htext, Option.bind_some] at h
    rw [hresult]
    dsimp only
    rw [h]

/-- Base64 that holds credentials: the validator is called with them. -/
theorem basic_credentials {rest : Str} {bs : Bytes} (hbs : encodeAscii rest = some bs)
    {username password : Utf8.Text} (h : credentials excess bs = some (username, password)) :
    (auth.basic excess ("Basic ".toList ++ rest)).1 = some (username, password) ∧
      ∀ e, (auth.basic excess ("Basic ".toList ++ rest)).2 = .raises e → e = .validator := by
  obtain ⟨hbasic, hdrop⟩ := basic_prefix rest
  obtain ⟨text, htext, hparts⟩ := Option.bind_eq_some_iff.1 h
  -- the header is base64 of UTF-8, so the decoding has a text
  have hok : (b64decode excess rest >>= decodeUtf8) = .ok text := by
    rcases decode_ascii hbs with ⟨hnone, -⟩ | ⟨decoded, hsome, hnone, -⟩ | ⟨text', htext', hok⟩
    · rw [hnone] at htext
      cases htext
    · rw [hsome, Option.bind_some, hnone] at htext
      cases htext
    · rw [htext] at htext'
      cases htext'
      exact hok
  rw [HttpBasicAuth.basic, if_pos hbasic, hdrop, hok]
  dsimp only
  rw [hparts]
  dsimp only
  -- whatever the validator does, it has been called with these two
  cases auth.validator username password with
  | principal =>
    refine ⟨rfl, ?_⟩
    intro e he
    cases he
  | none =>
    refine ⟨rfl, ?_⟩
    intro e he
    cases he
  | raises =>
    refine ⟨rfl, ?_⟩
    intro e he
    cases he
    rfl

/-! ## When the parsing is exact -/

/-- The credentials of a header, by its base64. -/
theorem carries_iff (excess : Bool) {rest : Str} {bs : Bytes} (hbs : encodeAscii rest = some bs)
    {username password : Utf8.Text} :
    Carries ("Basic ".toList ++ rest) username password ↔
      Base64.Canonical bs ∧ credentials excess bs = some (username, password) := by
  have hbytes : rest = decodeLatin1 bs := (decodeLatin1_of_encodeAscii hbs).symm
  constructor
  · rintro ⟨hnot, encoded, hencoded, heq⟩
    have hsame : bs = Base64.encode encoded := by
      rw [hbytes] at heq
      exact decodeLatin1_injective (List.append_cancel_left heq)
    refine ⟨by rw [hsame]; exact Base64.canonical_encode encoded, ?_⟩
    rw [credentials, hsame, Base64.a2b_encode, Option.bind_some, Utf8.decode_of_encode hencoded,
      Option.bind_some]
    exact partition_eq_some_iff.2 ⟨rfl, hnot⟩
  · rintro ⟨hcanonical, hcredentials⟩
    obtain ⟨text, htext, hparts⟩ := Option.bind_eq_some_iff.1 hcredentials
    obtain ⟨decoded, hdecoded, hutf8⟩ := Option.bind_eq_some_iff.1 htext
    obtain ⟨rfl, hnot⟩ := partition_eq_some_iff.1 hparts
    refine ⟨hnot, decoded, Utf8.encode_of_decode hutf8, ?_⟩
    rw [hbytes, ← (Base64.canonical_iff hdecoded).1 hcanonical]

/-- A 401 with the challenge is exact for a header that carries no credentials. -/
theorem exact_of_unauthorized {authorization : Str} {body : Str}
    (hbasic : auth.basic excess authorization = (none, .unauthorized body auth.challenge))
    (hnone : ∀ username password, ¬Carries authorization username password) :
    Exact auth excess authorization := by
  refine ⟨?_, ?_, ?_⟩
  · intro e he
    rw [hbasic] at he
    cases he
  · intro username password
    rw [hbasic]
    constructor
    · intro he
      cases he
    · intro hcarries
      exact absurd hcarries (hnone username password)
  · intro _
    rw [hbasic]
    exact ⟨rfl, body, rfl⟩

/-- For every request: the parsing of its `Authorization` header is exact and total exactly when the
rest behind `Basic ` is ASCII and, if it holds credentials, canonical. -/
theorem basic_exact_iff (auth : HttpBasicAuth) (excess : Bool) (headers : List (Bytes × Bytes)) :
    Exact auth excess (authorization headers) ↔ Plain excess (authorization headers) := by
  constructor
  · intro h rest hrest
    cases hbs : encodeAscii rest with
    | none =>
      -- the `ValueError` is not caught
      rw [hrest] at h
      have hraises := h.total .valueError (by rw [basic_not_ascii hbs])
      cases hraises
    | some bs =>
      refine ⟨bs, rfl, ?_⟩
      cases hcredentials : credentials excess bs with
      | none => exact .inr rfl
      | some found =>
        obtain ⟨username, password⟩ := found
        left
        rw [hrest] at h
        have hcarries := (h.calls username password).1 (basic_credentials hbs hcredentials).1
        exact ((carries_iff excess hbs).1 hcarries).1
  · intro h
    by_cases hprefix : "Basic ".toList <+: authorization headers
    · obtain ⟨rest, hrest⟩ := hprefix
      obtain ⟨bs, hbs, hplain⟩ := h rest hrest.symm
      rw [← hrest]
      cases hcredentials : credentials excess bs with
      | none =>
        have hnone : ∀ username password, ¬Carries ("Basic ".toList ++ rest) username password := by
          intro username password hcarries
          have hsome := ((carries_iff excess hbs).1 hcarries).2
          rw [hcredentials] at hsome
          cases hsome
        exact exact_of_unauthorized (basic_malformed hbs hcredentials) hnone
      | some found =>
        obtain ⟨username, password⟩ := found
        have hcanonical : Base64.Canonical bs := by
          rcases hplain with hcanonical | hnone
          · exact hcanonical
          · rw [hcredentials] at hnone
            cases hnone
        obtain ⟨hcalls, htotal⟩ :=
          @basic_credentials auth excess rest bs hbs username password hcredentials
        refine ⟨htotal, fun username' password' => ?_, fun hnone => ?_⟩
        · rw [hcalls, carries_iff excess hbs, hcredentials]
          exact ⟨fun heq => ⟨hcanonical, heq⟩, fun heq => heq.2⟩
        · exact absurd ((carries_iff excess hbs).2 ⟨hcanonical, hcredentials⟩)
            (hnone username password)
    · have hnone : ∀ username password, ¬Carries (authorization headers) username password := by
        rintro username password ⟨-, encoded, -, heq⟩
        exact hprefix ⟨_, heq.symm⟩
      exact exact_of_unauthorized (basic_prefix_missing hprefix) hnone

/-- What a client encodes comes back. -/
theorem basic_round_trip {username password : Utf8.Text} (hnot : colon ∉ username) {bs : Bytes}
    (hbs : Utf8.encode (username ++ colon :: password) = some bs) :
    (auth.basic excess ("Basic ".toList ++ decodeLatin1 (Base64.encode bs))).1 =
    some (username, password) := by
  have hascii := encodeAscii_decodeLatin1 (Base64.ascii_encode bs)
  have hcarries : Carries ("Basic ".toList ++ decodeLatin1 (Base64.encode bs)) username password :=
    ⟨hnot, bs, hbs, rfl⟩
  exact (basic_credentials hascii ((carries_iff excess hascii).1 hcarries).2).1

/-- A validator that takes everyone. -/
def everyone : HttpBasicAuth := ⟨fun _ _ => .principal, "basicAuth".toList, "localpost".toList⟩

/-- The headers of a request with this `Authorization`. -/
def withAuthorization (value : Bytes) : List (Bytes × Bytes) :=
  [([97, 117, 116, 104, 111, 114, 105, 122, 97, 116, 105, 111, 110], value)]

/-- `Basic é`, which raises, and `Basic dTp=`, which is taken for `dTo=`, the user `u` without a
password. -/
theorem latin1_raises :
    ((everyone.basic true (authorization (withAuthorization [66, 97, 115, 105, 99, 32, 233]))).2 =
        .raises .valueError ∧
      ¬Exact everyone true (authorization (withAuthorization [66, 97, 115, 105, 99, 32, 233]))) ∧
    (everyone.basic true
        (authorization (withAuthorization [66, 97, 115, 105, 99, 32, 100, 84, 112, 61]))).1 =
        some ([.scalar 'u'], []) ∧
      ¬Exact everyone true
        (authorization (withAuthorization [66, 97, 115, 105, 99, 32, 100, 84, 112, 61])) := by
  have hlatin : authorization (withAuthorization [66, 97, 115, 105, 99, 32, 233]) =
      "Basic ".toList ++ [charOfByte 233] := by decide
  have hspare : authorization (withAuthorization [66, 97, 115, 105, 99, 32, 100, 84, 112, 61]) =
      "Basic ".toList ++ decodeLatin1 [100, 84, 112, 61] := by decide
  have hraises := @basic_not_ascii everyone true [charOfByte 233] (by decide)
  have hascii : encodeAscii (decodeLatin1 [100, 84, 112, 61]) = some [100, 84, 112, 61] :=
    encodeAscii_decodeLatin1 (by decide)
  have hcredentials : credentials true [100, 84, 112, 61] = some ([.scalar 'u'], []) := by
    have hdecoded : Base64.a2b true [100, 84, 112, 61] = some [117, 58] := by decide
    have htext : Utf8.decode [117, 58] = some [.scalar 'u', colon] := Utf8.decode_of_encode rfl
    rw [credentials, hdecoded, Option.bind_some, htext, Option.bind_some]
    decide
  have hcalls := (@basic_credentials everyone true _ _ hascii _ _ hcredentials).1
  rw [hlatin, hspare]
  refine ⟨⟨by rw [hraises], fun h => ?_⟩, hcalls, fun h => ?_⟩
  -- `ValueError` is not what the validator raised
  · have hvalidator := h.total .valueError (by rw [hraises])
    cases hvalidator
  -- the base64 has bits to spare, so it is no canonical encoding
  · obtain ⟨hcanonical, -⟩ := (carries_iff true hascii).1 ((h.calls _ _).1 hcalls)
    exact absurd (hcanonical.2.2.1 (by decide) rfl 41 (by decide)) (by decide)

end LocalPost.Openapi.Auth
