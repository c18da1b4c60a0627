/-
The part of cpprestsdk both ends use (`common/lib-dohttp`): taking a URI
apart, putting one together, percent-encoding.
-/
import DoClient.Bytes
import DoClient.Lib.OrdMap

namespace DoClient

/-- The exceptions of the standard library, and `uri_exception`, with their texts. -/
inductive StdException
  | lengthError (what : Bytes)
  | invalidArgument (what : Bytes)
  | uriException (what : Bytes)
  deriving DecidableEq, Repr

namespace Uri

/-! ## Characters -/

def isUnreserved (c : UInt8) : Bool := isalnum c || (ascii "-._~").contains c
def isSubDelim (c : UInt8) : Bool := (ascii "!$&'()*+,;=").contains c
def isSchemeCharacter (c : UInt8) : Bool := isalnum c || (ascii "+-.").contains c
def isUserInfoCharacter (c : UInt8) : Bool := isUnreserved c || isSubDelim c || (ascii "%:").contains c
def isAuthorityCharacter (c : UInt8) : Bool := isUnreserved c || isSubDelim c || (ascii "%@:[]").contains c
def isPathCharacter (c : UInt8) : Bool := isUnreserved c || isSubDelim c || (ascii "%/:@").contains c
def isQueryCharacter (c : UInt8) : Bool := isPathCharacter c || (ascii "?").contains c
def isFragmentCharacter (c : UInt8) : Bool := isQueryCharacter c

/-! ## Parts -/

/-- `uri_components`. -/
structure UriComponents where
  scheme : Bytes := []
  userInfo : Bytes := []
  host : Bytes := []
  /-- `none` where the text of the port is empty: the source reads an uninitialised number then. -/
  port : Option Int := some (-1)
  path : Bytes := ascii "/"
  query : Bytes := []
  fragment : Bytes := []
  deriving DecidableEq, Repr

/-- Characters up to the first of `stops`, and the rest. -/
def upTo (stops : Bytes) (p : Bytes) : Bytes × Bytes := p.span fun c => !stops.contains c

/-- A colon before the first slash ends a scheme. -/
def parseScheme (p : Bytes) : Option (Bytes × Bytes) :=
  if (upTo (ascii "/") p).1.contains 58 then
    if isalpha (p.headD 0) then
      let (scheme, rest) := upTo (ascii ":") p
      if scheme.all isSchemeCharacter then some (scheme, rest.drop 1) else none
    else none
  else some ([], p)

/-- A port as it is read into an `int`. -/
def portValue (digits : Bytes) : Option Int :=
  if digits = [] then none else some (min (digitsValue digits) (2 ^ 31 - 1))

/-- The user info, the host and the port of an authority. -/
def splitAuthority (authority : Bytes) : Bytes × Bytes × Option Int :=
  -- the port is the digits after the last colon
  let (host, port) := match authority.reverse.dropWhile isdigit with
    | 58 :: h => (h.reverse, portValue (authority.drop (h.length + 1)))
    | _ => (authority, some 0)
  match host.span isUserInfoCharacter with
  | (userInfo, 64 :: host) => (userInfo, host, port)
  | _ => ([], host, port)

/-- Two slashes start an authority. -/
def parseAuthority (p : Bytes) : Option ((Bytes × Bytes × Option Int) × Bytes) :=
  if (ascii "//").isPrefixOf p then
    let (authority, rest) := upTo (ascii "/?#") (p.drop 2)
    if authority.all isAuthorityCharacter then some (splitAuthority authority, rest) else none
  else some (([], [], some 0), p)

/-- A path, the default one when there is none. -/
def parsePath (p : Bytes) : Option (Bytes × Bytes) :=
  if (p.head?.all fun c => !isPathCharacter c) then some (ascii "/", p)
  else
    let (path, rest) := upTo (ascii "?#") p
    if path.all isPathCharacter then some (path, rest) else none

def parseQuery (p : Bytes) : Option (Bytes × Bytes) :=
  if (ascii "?").isPrefixOf p then
    let (query, rest) := upTo (ascii "#") (p.drop 1)
    if query.all isQueryCharacter then some (query, rest) else none
  else some ([], p)

def parseFragment (p : Bytes) : Option Bytes :=
  if (ascii "#").isPrefixOf p then
    if (p.drop 1).all isFragmentCharacter then some (p.drop 1) else none
  else some []

/-- `inner_parse_out::parse_from` and `write_to`. -/
def parseFrom (encoded : Bytes) : Option UriComponents := do
  let (scheme, p) ← parseScheme (cstr encoded)
  let ((userInfo, host, port), p) ← parseAuthority p
  let (path, p) ← parsePath p
  let (query, p) ← parseQuery p
  let fragment ← parseFragment p
  return { scheme := scheme.map tolower, userInfo, host := host.map tolower, port, path, query, fragment }

/-- The exception for a string that is no URI. -/
def invalidUri (s : Bytes) : StdException := .uriException (ascii "provided uri is invalid: " ++ s)

/-- `uri(const std::string&)`. -/
def ofString (s : Bytes) : Except StdException UriComponents :=
  match parseFrom s with
  | some u => .ok u
  | none => .error (invalidUri (cstr s))

namespace UriComponents

variable (m : UriComponents)

/-- `uri_components::join`. -/
def join : Bytes :=
  let path := if m.host ≠ [] ∧ m.path.head? ≠ some 47 then 47 :: m.path else m.path
  (if m.scheme = [] then [] else m.scheme.map tolower ++ ascii ":") ++
  (if m.host = [] then []
    else ascii "//" ++ (if m.userInfo = [] then [] else m.userInfo ++ ascii "@") ++ m.host.map tolower ++
      (m.port.elim [] fun port => if 0 < port then ascii ":" ++ toDecimalInt port else [])) ++
  path ++
  (if m.query = [] then [] else ascii "?" ++ m.query) ++
  (if m.fragment = [] then [] else ascii "#" ++ m.fragment)

/-! ## `uri_builder` -/

/-- A part appended to a list of parts, with one separator in between. -/
def appendSeparated (sep : UInt8) (this toAppend : Bytes) : Bytes :=
  if this.getLast? = some sep ∧ toAppend.head? = some sep then this.dropLast ++ toAppend
  else if this.getLast? ≠ some sep ∧ toAppend.head? ≠ some sep then this ++ sep :: toAppend
  else this ++ toAppend

/-- `append_path`, of a path already encoded. -/
def appendPath (toAppend : Bytes) : UriComponents :=
  if toAppend = [] ∨ toAppend = ascii "/" then m
  else if m.path = [] ∨ m.path = ascii "/" then
    { m with path := if toAppend.head? = some 47 then toAppend else 47 :: toAppend }
  else { m with path := appendSeparated 47 m.path toAppend }

/-- `append_query`, of a query already encoded. -/
def appendQuery (toAppend : Bytes) : UriComponents :=
  if toAppend = [] then m
  else if m.query = [] then { m with query := toAppend }
  else { m with query := appendSeparated 38 m.query toAppend }

end UriComponents

/-! ## Percent-encoding -/

/-- `encode_impl`. -/
def encodeImpl (shouldEncode : UInt8 → Bool) (raw : Bytes) : Bytes := raw.flatMap fun ch =>
  let hex (n : UInt8) : UInt8 := (ascii "0123456789ABCDEF").getD n.toNat 0
  if shouldEncode ch then [37, hex ((ch >>> 4) &&& 0xF), hex (ch &&& 0xF)] else [ch]

/-- The characters `encode_query_impl` encodes. -/
def encodedInQuery (ch : UInt8) : Bool := (ascii "&;=%+").contains ch || !isQueryCharacter ch

/-- `encode_query_impl`. -/
def encodeQueryImpl (raw : Bytes) : Bytes := encodeImpl encodedInQuery raw

/-- `append_query` of a name and a value, both encoded. -/
def UriComponents.appendQueryParam (m : UriComponents) (name value : Bytes) : UriComponents :=
  m.appendQuery (encodeQueryImpl name ++ ascii "=" ++ encodeQueryImpl value)

/-- `uri_builder::to_string`. -/
def UriComponents.toString (m : UriComponents) : Except StdException Bytes :=
  if (parseFrom m.join).isSome then .ok m.join else .error (invalidUri m.join)

/-- `hex_char_digit_to_decimal_char`. -/
def hexCharDigitToDecimalChar (hex : UInt8) : Except StdException UInt8 :=
  if 48 ≤ hex ∧ hex ≤ 57 then .ok (hex - 48)
  else if 65 ≤ hex ∧ hex ≤ 70 then .ok (10 + (hex - 65))
  else if 97 ≤ hex ∧ hex ≤ 102 then .ok (10 + (hex - 97))
  else .error (.uriException (ascii "Invalid hexadecimal digit"))

/-- The exception for a percent sign at the end. -/
def missingDigits : StdException :=
  .uriException (ascii "Invalid URI string, two hexadecimal digits must follow '%'")

/-- `uri::decode`. -/
def decode : Bytes → Except StdException Bytes
  | [] => .ok []
  | ch :: rest =>
    if ch = 37 then
      match rest with
      | [] => .error missingDigits
      | [hi] => do let _ ← hexCharDigitToDecimalChar hi; .error missingDigits
      | hi :: lo :: rest => do
        let hi ← hexCharDigitToDecimalChar hi
        let lo ← hexCharDigitToDecimalChar lo
        let raw ← decode rest
        return ((hi <<< 4) + lo) :: raw
    else if 127 < ch then .error (.uriException (ascii "Invalid encoded URI string, must be entirely ascii"))
    else do
      let raw ← decode rest
      return ch :: raw

/-! ## Paths and queries -/

/-- `uri::split_path`. -/
def splitPath (path : Bytes) : List Bytes := (path.splitOn 47).filter (· ≠ [])

/-- The key-value pairs of a query: cut at each `&`, after the last of them at each `;`. -/
def splitPairs : Nat → Bytes → List Bytes
  | 0, s => [s]
  | n + 1, s =>
    match (s.findIdx? (· == 38)).or (s.findIdx? (· == 59)) with
    | none => [s]
    | some i => s.take i :: splitPairs n (s.drop (i + 1))

/-- `operator<` of `std::string`, as an order of ranks. -/
def stringRank (s : Bytes) : List Nat := s.map UInt8.toNat

/-- `std::map<std::string, std::string>`. -/
abbrev StringMap := OrdMap stringRank Bytes

/-- The pair is entered into the results: the key up to the first `=`, the value after it. -/
def addPair (results : StringMap) (pair : Bytes) : StringMap :=
  match pair.findIdx? (· == 61) with
  | none => results
  | some i => results.insert (pair.take i) (pair.drop (i + 1))

/-- `uri::split_query`. -/
def splitQuery (query : Bytes) : StringMap := (splitPairs query.length query).foldl addPair .empty

/-! ## What is encoded -/

/-- The characters an encoded name or value is made of. -/
def isEncodedCharacter (c : UInt8) : Bool := isQueryCharacter c && !(ascii "&;=+#").contains c && c != 0

theorem encodeImpl_cons (shouldEncode : UInt8 → Bool) (ch : UInt8) (raw : Bytes) :
    encodeImpl shouldEncode (ch :: raw) = encodeImpl shouldEncode [ch] ++ encodeImpl shouldEncode raw := by
  simp [encodeImpl]

theorem encodeQueryImpl_cons (ch : UInt8) (raw : Bytes) :
    encodeQueryImpl (ch :: raw) = encodeQueryImpl [ch] ++ encodeQueryImpl raw := encodeImpl_cons _ ch raw

/-- A digit of an encoded byte. -/
def hexDigit (n : UInt8) : UInt8 := (ascii "0123456789ABCDEF").getD n.toNat 0

theorem encodeQueryImpl_plain {ch : UInt8} (h : encodedInQuery ch = false) : encodeQueryImpl [ch] = [ch] := by
  simp [encodeQueryImpl, encodeImpl, h]

theorem encodeQueryImpl_encoded {ch : UInt8} (h : encodedInQuery ch = true) :
    encodeQueryImpl [ch] = [37, hexDigit ((ch >>> 4) &&& 0xF), hexDigit (ch &&& 0xF)] := by
  simp [encodeQueryImpl, encodeImpl, h, hexDigit]

/-- A half of a byte is the value of its digit. -/
theorem hexDigit_digit (n : UInt8) : isEncodedCharacter (hexDigit (n &&& 0xF)) = true ∧
    hexCharDigitToDecimalChar (hexDigit (n &&& 0xF)) = .ok (n &&& 0xF) := by
  have hdigits : ∀ n : Fin 16, isEncodedCharacter ((ascii "0123456789ABCDEF").getD n 0) = true ∧
      hexCharDigitToDecimalChar ((ascii "0123456789ABCDEF").getD n 0) = .ok (UInt8.ofNat n) := by
    decide
  have hlt : (n &&& 0xF).toNat < 16 := by
    rw [UInt8.toNat_and]
    exact Nat.lt_of_le_of_lt Nat.and_le_right (by decide)
  have h := hdigits ⟨(n &&& 0xF).toNat, hlt⟩
  rwa [UInt8.ofNat_toNat] at h

theorem isQueryCharacter_of_plain {ch : UInt8} (h : encodedInQuery ch = false) :
    isQueryCharacter ch = true := by
  simpa using (Bool.or_eq_false_iff.1 h).2

theorem isQueryCharacter_ascii {c : UInt8} (h : isQueryCharacter c = true) : ¬ 127 < c := by
  simp only [isQueryCharacter, isPathCharacter, isUnreserved, isSubDelim, isalnum, isalpha, isdigit,
    Bool.or_eq_true,
    Bool.and_eq_true, decide_eq_true_eq, UInt8.le_iff_toNat_le, UInt8.lt_iff_toNat_lt,
      List.contains_iff_mem] at h ⊢
  have hsigns : ∀ x ∈ ascii "-._~" ++ ascii "!$&'()*+,;=" ++ ascii "%/:@" ++ ascii "?", x.toNat ≤ 127 :=
    forall_mem_of_all (by decide)
  have hsign := hsigns c
  simp only [List.mem_append] at hsign
  grind

theorem isEncodedCharacter_plain {ch : UInt8} (h : encodedInQuery ch = false) :
    isEncodedCharacter ch = true := by
  have hquery := isQueryCharacter_of_plain h
  have hhash : ch ≠ 35 := class_ne hquery (by decide)
  have hzero : ch ≠ 0 := class_ne hquery (by decide)
  have hspecial := (Bool.or_eq_false_iff.1 h).1
  simp only [ascii] at hspecial
  simp_all [isEncodedCharacter, ascii]

/-- A byte is written as three at most. -/
theorem length_encodeQueryImpl_le (raw : Bytes) : (encodeQueryImpl raw).length ≤ 3 * raw.length := by
  induction raw with
  | nil => simp [encodeQueryImpl, encodeImpl]
  | cons ch raw ih =>
    have hone : (encodeQueryImpl [ch]).length ≤ 3 := by
      by_cases h : encodedInQuery ch = true
      · simp [encodeQueryImpl_encoded h]
      · simp [encodeQueryImpl_plain (by simpa using h)]
    rw [encodeQueryImpl_cons, List.length_append, List.length_cons]
    omega

theorem isEncodedCharacter_encodeQueryImpl {raw : Bytes} :
    ∀ c ∈ encodeQueryImpl raw, isEncodedCharacter c = true := by
  induction raw with
  | nil => nofun
  | cons ch raw ih =>
    rw [encodeQueryImpl_cons]
    intro c hc
    rcases List.mem_append.1 hc with hc | hc
    · by_cases h : encodedInQuery ch = true
      · rw [encodeQueryImpl_encoded h] at hc
        simp only [List.mem_cons, List.not_mem_nil, or_false] at hc
        rcases hc with rfl | rfl | rfl
        · decide
        · exact (hexDigit_digit _).1
        · exact (hexDigit_digit _).1
      · rw [encodeQueryImpl_plain (by simpa using h)] at hc
        obtain rfl := List.mem_singleton.1 hc
        exact isEncodedCharacter_plain (by simpa using h)
    · exact ih c hc

theorem decode_percent (hi lo : UInt8) (rest : Bytes) : decode (37 :: hi :: lo :: rest) = (do
    let hi ← hexCharDigitToDecimalChar hi
    let lo ← hexCharDigitToDecimalChar lo
    let raw ← decode rest
    return ((hi <<< 4) + lo) :: raw) := by
  rw [decode.eq_def]
  rfl

theorem decode_plain {ch : UInt8} (hne : ch ≠ 37) (hle : ¬ 127 < ch) (rest : Bytes) :
    decode (ch :: rest) = (decode rest).map (ch :: ·) := by
  rw [decode.eq_def]
  simp only [hne, hle, if_false]
  cases decode rest <;> rfl

/-- A byte is its two halves. -/
theorem halves_add (ch : UInt8) : (((ch >>> 4) &&& 0xF) <<< 4) + (ch &&& 0xF) = ch := by
  have hand : ∀ n : Nat, n &&& 15 = n % 16 := fun n => Nat.and_two_pow_sub_one_eq_mod n 4
  have hlt := ch.toNat_lt
  rw [← UInt8.toNat_inj]
  simp only [UInt8.toNat_add, UInt8.toNat_shiftLeft, UInt8.toNat_shiftRight, UInt8.toNat_and,
    UInt8.reduceToNat, hand, Nat.shiftLeft_eq, Nat.shiftRight_eq_div_pow, Nat.reduceMod, Nat.reducePow]
  omega

/-- An encoded byte is read back, whatever follows. -/
theorem decode_encoded_byte (ch : UInt8) (rest : Bytes) :
    decode (encodeQueryImpl [ch] ++ rest) = (decode rest).map (ch :: ·) := by
  by_cases h : encodedInQuery ch = true
  · -- the three characters of an encoded byte are two hexadecimal digits of it
    rw [encodeQueryImpl_encoded h]
    simp only [List.cons_append, List.nil_append, decode_percent, (hexDigit_digit _).2]
    cases decode rest with
    | error e => rfl
    | ok raw =>
      show Except.ok (_ :: raw) = .ok (ch :: raw)
      rw [halves_add]
  · have hplain : encodedInQuery ch = false := by simpa using h
    have hpercent : ch ≠ 37 := by
      intro hch
      rw [hch] at hplain
      revert hplain
      decide
    have hascii := isQueryCharacter_ascii (isQueryCharacter_of_plain hplain)
    rw [encodeQueryImpl_plain hplain, List.singleton_append, decode_plain hpercent hascii]

/-- **What is encoded for a query is decoded to itself.** -/
theorem decode_encodeQueryImpl (raw : Bytes) : decode (encodeQueryImpl raw) = .ok raw := by
  induction raw with
  | nil => rfl
  | cons ch raw ih =>
    rw [encodeQueryImpl_cons, decode_encoded_byte, ih]
    rfl

/-! ## Parts read back -/

theorem span_append {p : UInt8 → Bool} {u v : Bytes} (hu : ∀ c ∈ u, p c = true)
    (hv : ∀ c ∈ v.head?, p c = false) : (u ++ v).span p = (u, v) := by
  rw [List.span_eq_takeWhile_dropWhile, List.takeWhile_append_of_pos hu, List.dropWhile_append_of_pos hu]
  cases v with
  | nil => simp
  | cons c v => simp [hv c rfl]

theorem upTo_append {stops u v : Bytes} (hu : ∀ c ∈ u, stops.contains c = false)
    (hv : ∀ c ∈ v.head?, stops.contains c = true) : upTo stops (u ++ v) = (u, v) :=
  span_append (fun c hc => by rw [hu c hc]; rfl) fun c hc => by rw [hv c hc]; rfl

/-- A path is read up to the query or the fragment. -/
theorem parsePath_append {path rest : Bytes} (hne : path ≠ []) (hpath : ∀ c ∈ path, isPathCharacter c = true)
    (hrest : ∀ c ∈ rest.head?, (ascii "?#").contains c = true) :
    parsePath (path ++ rest) = some (path, rest) := by
  have hstop : ∀ c ∈ path, (ascii "?#").contains c = false := by
    intro c hc
    have hquestion : c ≠ 63 := class_ne (hpath c hc) (by decide)
    have hhash : c ≠ 35 := class_ne (hpath c hc) (by decide)
    simp [ascii, hquestion, hhash]
  have hall : path.all isPathCharacter = true := List.all_eq_true.2 hpath
  obtain ⟨c, path', rfl⟩ := List.exists_cons_of_ne_nil hne
  rw [parsePath, if_neg (by simp [hpath c List.mem_cons_self]), upTo_append hstop hrest]
  simp only [hall, if_true]

/-- A query is read up to the fragment. -/
theorem parseQuery_append {query rest : Bytes} (hquery : ∀ c ∈ query, isQueryCharacter c = true)
    (hrest : ∀ c ∈ rest.head?, (ascii "#").contains c = true) :
    parseQuery (ascii "?" ++ (query ++ rest)) = some (query, rest) := by
  have hstop : ∀ c ∈ query, (ascii "#").contains c = false := by
    intro c hc
    have hhash : c ≠ 35 := class_ne (hquery c hc) (by decide)
    simp [ascii, hhash]
  have hall : query.all isQueryCharacter = true := List.all_eq_true.2 hquery
  have hdrop : (ascii "?" ++ (query ++ rest)).drop 1 = query ++ rest := rfl
  rw [parseQuery, if_pos (by simp [ascii])]
  simp only [hdrop, upTo_append hstop hrest, hall, if_true]

/-! ## Relative references -/

/-- A path that does not start with a slash, of more than one segment. -/
structure RelativePath (path : Bytes) : Prop where
  characters : ∀ c ∈ path, isPathCharacter c = true
  slash : 47 ∈ path
  colon : 58 ∉ path
  first : path.head? ≠ some 47

instance (path : Bytes) : Decidable (RelativePath path) :=
  decidable_of_iff (path.all isPathCharacter = true ∧ 47 ∈ path ∧ 58 ∉ path ∧ path.head? ≠ some 47)
    ⟨fun h => ⟨List.all_eq_true.1 h.1, h.2.1, h.2.2.1, h.2.2.2⟩,
      fun h => ⟨List.all_eq_true.2 h.characters, h.slash, h.colon, h.first⟩⟩

/-- **A path and a query are what they are put together from.** -/
theorem parseFrom_relative {path : Bytes} (query : Bytes) (hpath : RelativePath path)
    (hquery : ∀ c ∈ query, isQueryCharacter c = true) :
    parseFrom (path ++ ascii "?" ++ query) = some { port := some 0, path := path, query := query } := by
  obtain ⟨c, path', rfl⟩ := List.exists_cons_of_ne_nil (List.ne_nil_of_mem hpath.slash)
  have hcstr : cstr (c :: path' ++ ascii "?" ++ query) = c :: path' ++ ascii "?" ++ query := by
    refine cstr_eq fun x hx => ?_
    rcases List.mem_append.1 hx with hx | hx
    · rcases List.mem_append.1 hx with hx | hx
      · exact class_ne (hpath.characters x hx) (by decide)
      · rw [List.mem_singleton.1 hx]
        decide
    · exact class_ne (hquery x hx) (by decide)
  have hscheme :
    parseScheme (c :: path' ++ ascii "?" ++ query) = some ([], c :: path' ++ ascii "?" ++ query) := by
    obtain ⟨u, v, huv, hslash⟩ := List.eq_append_cons_of_mem hpath.slash
    have hspan := @upTo_append (ascii "/") u (47 :: v ++ ascii "?" ++ query)
      (fun x hx => by simpa [ascii] using fun h : x = 47 => hslash (h ▸ hx)) (by simp [ascii])
    have hcolon : 58 ∉ u := fun h => hpath.colon (huv ▸ List.mem_append_left _ h)
    have heq : c :: path' ++ ascii "?" ++ query = u ++ (47 :: v ++ ascii "?" ++ query) := by simp [huv]
    rw [parseScheme, heq, hspan, if_neg (by simpa using hcolon)]
  have hauthority : parseAuthority (c :: path' ++ ascii "?" ++ query) =
      some (([], [], some 0), c :: path' ++ ascii "?" ++ query) := by
    have hc : c ≠ 47 := by simpa using hpath.first
    rw [parseAuthority, if_neg]
    simp [ascii, hc.symm]
  have hparse : parsePath (c :: path' ++ ascii "?" ++ query) = some (c :: path', ascii "?" ++ query) := by
    rw [List.append_assoc]
    exact parsePath_append (List.cons_ne_nil c path') hpath.characters (by simp [ascii])
  have hparseQuery : parseQuery (ascii "?" ++ query) = some (query, []) := by
    simpa using @parseQuery_append query [] hquery nofun
  have hfragment : parseFragment [] = some [] := rfl
  simp only [parseFrom, hcstr, hscheme, hauthority, hparse, hparseQuery, hfragment, Option.bind_eq_bind,
    Option.bind_some]
  rfl

/-! ## Query strings -/

theorem findIdx?_separator {u v : Bytes} {sep : UInt8} (hu : sep ∉ u) :
    (u ++ sep :: v).findIdx? (· == sep) = some u.length := by
  have hnone : u.findIdx? (· == sep) = none := by
    rw [List.findIdx?_eq_none_iff]
    intro c hc
    simpa using fun hcs : c = sep => hu (hcs ▸ hc)
  simp [List.findIdx?_append, hnone, List.findIdx?_cons]

theorem splitPairs_pair {u v : Bytes} (n : Nat) (hu : 38 ∉ u) :
    splitPairs (n + 1) (u ++ 38 :: v) = u :: splitPairs n v := by
  have hdrop : (u ++ 38 :: v).drop (u.length + 1) = v := by simp [← List.drop_drop]
  rw [splitPairs, findIdx?_separator hu]
  simp [hdrop]

theorem splitPairs_last {u : Bytes} (n : Nat) (hamp : 38 ∉ u) (hsemi : 59 ∉ u) : splitPairs n u = [u] := by
  cases n with
  | zero => rfl
  | succ n =>
    have hnone : ∀ sep : UInt8, sep ∉ u → u.findIdx? (· == sep) = none := by
      intro sep hsep
      rw [List.findIdx?_eq_none_iff]
      intro c hc
      simpa using fun hcs : c = sep => hsep (hcs ▸ hc)
    rw [splitPairs, hnone 38 hamp, hnone 59 hsemi]
    rfl

/-- **The pair behind the last ampersand is read as it stands**, whatever is before it. -/
theorem splitPairs_append {v : Bytes} (hamp : 38 ∉ v) (hsemi : 59 ∉ v) :
    ∀ (n : Nat) (u : Bytes), u.length < n → ∃ pairs, splitPairs n (u ++ 38 :: v) = pairs ++ [v]
  | 0, _, hlt => absurd hlt (Nat.not_lt_zero _)
  | n + 1, u, hlt => by
    by_cases hu : 38 ∈ u
    · obtain ⟨a, b, hab, ha⟩ := List.eq_append_cons_of_mem hu
      have hlength : b.length < n := by
        rw [hab, List.length_append, List.length_cons] at hlt
        omega
      obtain ⟨pairs, hpairs⟩ := splitPairs_append hamp hsemi n b hlength
      have happend : u ++ 38 :: v = a ++ 38 :: (b ++ 38 :: v) := by simp [hab]
      exact ⟨a :: pairs, by rw [happend, splitPairs_pair n ha, hpairs, List.cons_append]⟩
    · exact ⟨[u], by rw [splitPairs_pair n hu, splitPairs_last n hamp hsemi, List.singleton_append]⟩

/-- A pair is entered under its name. -/
theorem addPair_param {name value : Bytes} (results : StringMap) (hname : 61 ∉ name) :
    addPair results (name ++ ascii "=" ++ value) = results.insert name value := by
  have hsplit : name ++ ascii "=" ++ value = name ++ 61 :: value := by simp [ascii]
  have hdrop : (name ++ 61 :: value).drop (name.length + 1) = value := by simp [← List.drop_drop]
  rw [hsplit, addPair, findIdx?_separator hname]
  simp [hdrop]

end Uri

end DoClient
