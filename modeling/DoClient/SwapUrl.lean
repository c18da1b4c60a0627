/-
The URL of a request to a cache host: the download's own with the host
swapped, and the host it had as a parameter of the query.
-/
import DoClient.Uri
import Mathlib.Data.List.TakeWhile

namespace DoClient

namespace Uri

/-! ## Parts, text by text -/

/-- A part behind the sign it starts with; nothing for an empty one. -/
def part (sign text : Bytes) : Bytes := if text = [] then [] else sign ++ text

theorem mem_part {sign text : Bytes} {c : UInt8} (h : c ∈ part sign text) : c ∈ sign ∨ c ∈ text := by
  unfold part at h
  split at h
  · cases h
  · exact List.mem_append.1 h

/-- A part is not there or starts with its sign. -/
theorem head_part {sign : UInt8} {text rest : Bytes} {c : UInt8} (h : c ∈ (part [sign] text ++ rest).head?) :
    c = sign ∨ c ∈ rest.head? := by
  unfold part at h
  split at h
  · exact .inr h
  · exact .inl (Option.some.inj h).symm

theorem parseScheme_append {scheme : Bytes} (rest : Bytes) (hfirst : isalpha (scheme.headD 0) = true)
    (hscheme : ∀ c ∈ scheme, isSchemeCharacter c = true) :
    parseScheme (scheme ++ ascii ":" ++ rest) = some (scheme, rest) := by
  have hstop : ∀ c ∈ scheme, c ≠ 47 ∧ c ≠ 58 := fun c hc =>
    ⟨class_ne (hscheme c hc) (by decide), class_ne (hscheme c hc) (by decide)⟩
  have hcolon : (upTo (ascii "/") (scheme ++ ascii ":" ++ rest)).1.contains 58 = true := by
    rw [upTo, List.span_eq_takeWhile_dropWhile, List.append_assoc, List.takeWhile_append_of_pos fun c hc => by
      simp [ascii, (hstop c hc).1]]
    simp [ascii]
  have hupTo : upTo (ascii ":") (scheme ++ ascii ":" ++ rest) = (scheme, 58 :: rest) := by
    rw [List.append_assoc]
    exact upTo_append (fun c hc => by simp [ascii, (hstop c hc).2]) (by simp [ascii])
  have hhead : (scheme ++ ascii ":" ++ rest).headD 0 = scheme.headD 0 := by
    cases scheme with
    | nil => cases hfirst
    | cons c scheme => rfl
  have hall : scheme.all isSchemeCharacter = true := List.all_eq_true.2 hscheme
  rw [parseScheme, if_pos hcolon, hhead, if_pos hfirst, hupTo]
  simp [hall]

theorem parseAuthority_append {authority rest : Bytes}
    (hauthority : ∀ c ∈ authority, isAuthorityCharacter c = true)
    (hrest : ∀ c ∈ rest.head?, (ascii "/?#").contains c = true) :
    parseAuthority (ascii "//" ++ (authority ++ rest)) = some (splitAuthority authority, rest) := by
  have hstop : ∀ c ∈ authority, (ascii "/?#").contains c = false := by
    intro c hc
    have hslash : c ≠ 47 := class_ne (hauthority c hc) (by decide)
    have hquestion : c ≠ 63 := class_ne (hauthority c hc) (by decide)
    have hhash : c ≠ 35 := class_ne (hauthority c hc) (by decide)
    simp [ascii, hslash, hquestion, hhash]
  have hall : authority.all isAuthorityCharacter = true := List.all_eq_true.2 hauthority
  have hdrop : (ascii "//" ++ (authority ++ rest)).drop 2 = authority ++ rest := rfl
  rw [parseAuthority, if_pos (by simp [ascii])]
  simp only [hdrop, upTo_append hstop hrest, hall, if_true]

theorem parseQuery_part {query rest : Bytes} (hquery : ∀ c ∈ query, isQueryCharacter c = true)
    (hrest : ∀ c ∈ rest.head?, (ascii "#").contains c = true) :
    parseQuery (part (ascii "?") query ++ rest) = some (query, rest) := by
  by_cases hempty : query = []
  · have hnone : ¬ (ascii "?").isPrefixOf rest = true := by
      cases rest with
      | nil => nofun
      | cons c rest =>
        have hc : c = 35 := by simpa [ascii] using hrest c rfl
        simp [ascii, hc]
    rw [part, if_pos hempty, hempty, List.nil_append, parseQuery, if_neg hnone]
  · rw [part, if_neg hempty, List.append_assoc]
    exact parseQuery_append hquery hrest

theorem parseFragment_part {fragment : Bytes} (hfragment : ∀ c ∈ fragment, isFragmentCharacter c = true) :
    parseFragment (part (ascii "#") fragment) = some fragment := by
  by_cases hempty : fragment = []
  · rw [part, if_pos hempty, hempty]
    rfl
  · have hall : fragment.all isFragmentCharacter = true := List.all_eq_true.2 hfragment
    have hdrop : (ascii "#" ++ fragment).drop 1 = fragment := rfl
    rw [part, if_neg hempty, parseFragment, if_pos (by simp [ascii]), hdrop, if_pos hall]

/-! ## The authority -/

/-- The port of an authority, and what stands before it. -/
def splitPort (authority : Bytes) : Bytes × Option Int :=
  match authority.reverse.dropWhile isdigit with
  | 58 :: h => (h.reverse, portValue (authority.drop (h.length + 1)))
  | _ => (authority, some 0)

theorem splitAuthority_eq (authority : Bytes) : splitAuthority authority =
    match (splitPort authority).1.span isUserInfoCharacter with
    | (userInfo, 64 :: host) => (userInfo, host, (splitPort authority).2)
    | _ => ([], (splitPort authority).1, (splitPort authority).2) := rfl

theorem splitPort_digits {u digits : Bytes} (hdigits : ∀ c ∈ digits, isdigit c = true) :
    splitPort (u ++ 58 :: digits) = (u, portValue digits) := by
  have hrest : (u ++ 58 :: digits).reverse.dropWhile isdigit = 58 :: u.reverse := by
    rw [List.reverse_append, List.reverse_cons, List.append_assoc, List.dropWhile_append_of_pos fun c hc =>
      hdigits c (List.mem_reverse.1 hc)]
    rfl
  have hdrop : (u ++ 58 :: digits).drop (u.reverse.length + 1) = digits := by simp [← List.drop_drop]
  rw [splitPort, hrest]
  simp only [hdrop, List.reverse_reverse]

theorem splitPort_none {authority : Bytes} (h : (authority.reverse.dropWhile isdigit).head? ≠ some 58) :
    splitPort authority = (authority, some 0) := by
  unfold splitPort
  split
  · next heq => exact absurd (by rw [heq]; rfl) h
  · rfl

/-- The user info as `join` writes it. -/
def userInfoText (userInfo : Bytes) : Bytes := if userInfo = [] then [] else userInfo ++ ascii "@"

/-- The port as `join` writes it. -/
def portText (port : Int) : Bytes := if 0 < port then ascii ":" ++ toDecimalInt port else []

theorem isUserInfoCharacter_unreserved {c : UInt8} (h : isUnreserved c = true) :
    isUserInfoCharacter c = true := by
  simp [isUserInfoCharacter, h]

/-- No digits after a colon end the text of a plain host name, whatever user info is before it. -/
theorem splitPort_host {userInfo host : Bytes} (hhost : ∀ c ∈ host, isUnreserved c = true) :
    splitPort (userInfoText userInfo ++ host) = (userInfoText userInfo ++ host, some 0) := by
  refine splitPort_none fun hcolon => ?_
  rw [List.reverse_append, List.dropWhile_append] at hcolon
  split at hcolon
  · -- the name is all digits: the user info ends in its sign
    unfold userInfoText at hcolon
    split at hcolon
    · cases hcolon
    · simp [ascii, List.dropWhile_cons_of_neg, show isdigit 64 = false from rfl] at hcolon
  · next hrest =>
    have hne : host.reverse.dropWhile isdigit ≠ [] := fun hnil => hrest (by rw [hnil]; rfl)
    obtain ⟨c, rest, hcons⟩ := List.exists_cons_of_ne_nil hne
    have hmem : c ∈ host.reverse := (List.dropWhile_sublist isdigit).subset (hcons ▸ List.mem_cons_self)
    rw [hcons] at hcolon
    exact class_ne (hhost c (List.mem_reverse.1 hmem)) (by decide) (Option.some.inj hcolon)

theorem splitAuthority_join {userInfo host : Bytes} {port : Int}
    (huserInfo : ∀ c ∈ userInfo, isUserInfoCharacter c = true)
    (hhost : ∀ c ∈ host, isUnreserved c = true) (hport : 0 ≤ port ∧ port ≤ 2 ^ 31 - 1) :
    splitAuthority (userInfoText userInfo ++ host ++ portText port) = (userInfo, host, some port) := by
  have hsplit : splitPort (userInfoText userInfo ++ host ++ portText port) =
      (userInfoText userInfo ++ host, some port) := by
    by_cases hpos : 0 < port
    · rw [portText, if_pos hpos]
      have hdecimal : toDecimalInt port = toDecimal port.natAbs := if_neg (by omega)
      have hvalue : portValue (toDecimal port.natAbs) = some port := by
        rw [portValue, if_neg (toDecimal_ne_nil _), digitsValue_toDecimal]
        congr 1
        omega
      rw [hdecimal, ← hvalue]
      exact splitPort_digits toDecimal_isdigit
    · rw [portText, if_neg hpos, List.append_nil, splitPort_host hhost]
      congr 2
      omega
  rw [splitAuthority_eq, hsplit]
  by_cases hempty : userInfo = []
  · subst hempty
    have hspan :=
      @span_append isUserInfoCharacter host [] (fun c hc => isUserInfoCharacter_unreserved (hhost c hc))
      nofun
    rw [List.append_nil] at hspan
    rw [show userInfoText [] ++ host = host from rfl]
    simp only [hspan]
  · have hspan := @span_append isUserInfoCharacter userInfo (ascii "@" ++ host) huserInfo fun c hc => by
      obtain rfl : 64 = c := Option.some.inj hc
      rfl
    rw [userInfoText, if_neg hempty, List.append_assoc]
    simp only [hspan]
    rfl

/-! ## Joined and parsed again -/

/-- What parsing gives of a URI with a host. -/
structure Parsed (m : UriComponents) : Prop where
  lowerScheme : m.scheme.map tolower = m.scheme
  userInfo : ∀ c ∈ m.userInfo, isUserInfoCharacter c = true
  port : ∀ port ∈ m.port, 0 ≤ port ∧ port ≤ 2 ^ 31 - 1
  pathFirst : m.path.head? = some 47
  path : ∀ c ∈ m.path, isPathCharacter c = true
  query : ∀ c ∈ m.query, isQueryCharacter c = true
  fragment : ∀ c ∈ m.fragment, isFragmentCharacter c = true

/-- The parts of a URI with a plain host name, as they stand in its text. -/
structure Plain (m : UriComponents) : Prop extends Parsed m where
  schemeFirst : isalpha (m.scheme.headD 0) = true
  scheme : ∀ c ∈ m.scheme, isSchemeCharacter c = true
  hostNe : m.host ≠ []
  host : ∀ c ∈ m.host, isUnreserved c = true
  portKnown : m.port ≠ none

theorem isAuthorityCharacter_userInfo {c : UInt8} (h : isUserInfoCharacter c = true) :
    isAuthorityCharacter c = true := by
  have hsigns : ∀ x ∈ ascii "%:", (ascii "%@:[]").contains x = true := forall_mem_of_all (by decide)
  simp only [isUserInfoCharacter, isAuthorityCharacter, Bool.or_eq_true] at h ⊢
  exact h.imp_right fun h => hsigns c (List.contains_iff_mem.1 h)

theorem tolower_tolower (c : UInt8) : tolower (tolower c) = tolower c := by
  unfold tolower
  split
  · next hupper =>
    simp only [Bool.and_eq_true, decide_eq_true_eq, UInt8.le_iff_toNat_le, UInt8.reduceToNat] at hupper
    refine if_neg ?_
    have hadd : (c + 32).toNat = c.toNat + 32 := by
      rw [UInt8.toNat_add]
      simp only [UInt8.reduceToNat]
      omega
    simp only [Bool.and_eq_true, decide_eq_true_eq, UInt8.le_iff_toNat_le, hadd, UInt8.reduceToNat]
    omega
  · next hlower => rfl

theorem isUnreserved_tolower {c : UInt8} (h : isUnreserved c = true) : isUnreserved (tolower c) = true := by
  unfold tolower
  split
  · next hupper =>
    simp only [Bool.and_eq_true, decide_eq_true_eq, UInt8.le_iff_toNat_le, UInt8.reduceToNat] at hupper
    have hadd : (c + 32).toNat = c.toNat + 32 := by
      rw [UInt8.toNat_add]
      simp only [UInt8.reduceToNat]
      omega
    simp only [isUnreserved, isalnum, isalpha, Bool.or_eq_true, Bool.and_eq_true, decide_eq_true_eq,
      UInt8.le_iff_toNat_le, hadd, UInt8.reduceToNat]
    omega
  · exact h

/-- The authority as `join` writes it. -/
def authorityText (m : UriComponents) (port : Int) : Bytes :=
  userInfoText m.userInfo ++ m.host.map tolower ++ portText port

theorem Plain.join_eq {m : UriComponents} (h : Plain m) {port : Int} (hport : m.port = some port) :
    m.join = m.scheme ++ ascii ":" ++ (ascii "//" ++ (authorityText m port ++
      (m.path ++ (part (ascii "?") m.query ++ part (ascii "#") m.fragment)))) := by
  have hscheme : m.scheme ≠ [] := by
    intro hempty
    have hfirst := h.schemeFirst
    rw [hempty] at hfirst
    cases hfirst
  have hpath : ¬ (m.host ≠ [] ∧ m.path.head? ≠ some 47) := fun hne => hne.2 h.pathFirst
  simp only [UriComponents.join, if_neg hscheme, h.lowerScheme, if_neg h.hostNe, hport, Option.elim_some,
    if_neg hpath, authorityText, userInfoText, portText, part, List.append_assoc]

theorem Plain.lowerHost {m : UriComponents} (h : Plain m) :
    ∀ c ∈ m.host.map tolower, isUnreserved c = true := by
  simpa using fun c hc => isUnreserved_tolower (h.host c hc)

theorem Plain.authority {m : UriComponents} (h : Plain m) (port : Int) (hport : 0 ≤ port) :
    ∀ c ∈ authorityText m port, isAuthorityCharacter c = true := by
  intro c hc
  rcases List.mem_append.1 hc with hc | hc
  · rcases List.mem_append.1 hc with hc | hc
    · unfold userInfoText at hc
      split at hc
      · cases hc
      · rcases List.mem_append.1 hc with hc | hc
        · exact isAuthorityCharacter_userInfo (h.userInfo c hc)
        · obtain rfl := List.mem_singleton.1 hc
          rfl
    · exact isAuthorityCharacter_userInfo (isUserInfoCharacter_unreserved (h.lowerHost c hc))
  · unfold portText at hc
    split at hc
    · rcases List.mem_append.1 hc with hc | hc
      · obtain rfl := List.mem_singleton.1 hc
        rfl
      · rw [toDecimalInt, if_neg (not_lt.2 hport)] at hc
        have hdigit := toDecimal_isdigit c hc
        exact isAuthorityCharacter_userInfo (isUserInfoCharacter_unreserved
          (by simp [isUnreserved, isalnum, hdigit]))
    · cases hc

/-- **What is joined is parsed into the same parts**, the host in lower case. -/
theorem parseFrom_join {m : UriComponents} (h : Plain m) :
    parseFrom m.join = some { m with host := m.host.map tolower } := by
  obtain ⟨port, hport⟩ := Option.ne_none_iff_exists'.1 h.portKnown
  obtain ⟨hnonneg, hmax⟩ := h.port port hport
  have hpathNe : m.path ≠ [] := by
    intro hempty
    have hfirst := h.pathFirst
    rw [hempty] at hfirst
    cases hfirst
  have hfragmentFirst : ∀ c ∈ (part (ascii "#") m.fragment).head?, c = 35 := by
    intro c hc
    rw [← List.append_nil (part _ _)] at hc
    exact (head_part hc).resolve_right nofun
  have hqueryFirst : ∀ c ∈ (part (ascii "?") m.query ++ part (ascii "#") m.fragment).head?, c = 63 ∨ c = 35 :=
    fun c hc => (head_part hc).imp_right (hfragmentFirst c)
  have hpathFirst :
    ∀ c ∈ (m.path ++ (part (ascii "?") m.query ++ part (ascii "#") m.fragment)).head?, c = 47 := by
    intro c hc
    rw [List.head?_append_of_ne_nil _ hpathNe, h.pathFirst] at hc
    exact (Option.some.inj hc).symm
  have hscheme := fun rest => parseScheme_append rest h.schemeFirst h.scheme
  have hauthority := parseAuthority_append (h.authority port hnonneg) fun c hc => by
    rw [hpathFirst c hc]
    rfl
  have hsplit : splitAuthority (authorityText m port) = (m.userInfo, m.host.map tolower, some port) :=
    splitAuthority_join h.userInfo h.lowerHost ⟨hnonneg, hmax⟩
  have hpath := parsePath_append hpathNe h.path fun c hc => by
    rcases hqueryFirst c hc with rfl | rfl <;> rfl
  have hquery := parseQuery_part h.query fun c hc => by
    rw [hfragmentFirst c hc]
    rfl
  have hcstr : cstr m.join = m.join := by
    rw [h.join_eq hport]
    refine cstr_eq ?_
    have hsigns : (∀ c ∈ ascii ":", c ≠ 0) ∧ (∀ c ∈ ascii "//", c ≠ 0) ∧ (∀ c ∈ ascii "?", c ≠ 0) ∧
        ∀ c ∈ ascii "#", c ≠ 0 :=
      ⟨forall_mem_of_all rfl, forall_mem_of_all rfl, forall_mem_of_all rfl, forall_mem_of_all rfl⟩
    have hpart : ∀ {sign text : Bytes}, (∀ c ∈ sign, c ≠ 0) → (∀ c ∈ text, isQueryCharacter c = true) →
        ∀ c ∈ part sign text, c ≠ 0 := fun hsign htext c hc =>
      (mem_part hc).elim (hsign c) fun hc => class_ne (htext c hc) (by decide)
    simp only [List.forall_mem_append]
    exact ⟨⟨fun c hc => class_ne (h.scheme c hc) (by decide), hsigns.1⟩, hsigns.2.1,
      fun c hc => class_ne (h.authority port hnonneg c hc) (by decide),
      fun c hc => class_ne (h.path c hc) (by decide), hpart hsigns.2.2.1 h.query,
        hpart hsigns.2.2.2 h.fragment⟩
  rw [parseFrom, hcstr, h.join_eq hport, hscheme]
  simp only [Option.bind_eq_bind, Option.bind_some, hauthority, hsplit, hpath, hquery,
    parseFragment_part h.fragment, h.lowerScheme, List.map_map, hport]
  have hidem : tolower ∘ tolower = tolower := funext tolower_tolower
  rw [hidem]
  cases m
  cases hport
  rfl

/-! ## What parsing gives -/

theorem head_upTo {stops p u v : Bytes} (h : upTo stops p = (u, v)) :
    ∀ c ∈ v.head?, stops.contains c = true := by
  rw [upTo, List.span_eq_takeWhile_dropWhile] at h
  obtain rfl := (Prod.mk.inj h).2
  intro c hc
  have hstop := List.head?_dropWhile_not (fun c => !stops.contains c) p
  rw [show (p.dropWhile fun c => !stops.contains c).head? = some c from hc] at hstop
  simpa using hstop

theorem splitPort_port {authority : Bytes} :
    ∀ port ∈ (splitPort authority).2, 0 ≤ port ∧ port ≤ 2 ^ 31 - 1 := by
  intro port hport
  unfold splitPort at hport
  split at hport
  · simp only [portValue] at hport
    split at hport
    · cases hport
    · obtain rfl := Option.some.inj hport
      omega
  · obtain rfl := Option.some.inj hport
    omega

theorem splitAuthority_parsed {authority userInfo host : Bytes} {port : Option Int}
    (h : splitAuthority authority = (userInfo, host, port)) :
    (∀ c ∈ userInfo, isUserInfoCharacter c = true) ∧ ∀ p ∈ port, 0 ≤ p ∧ p ≤ 2 ^ 31 - 1 := by
  rw [splitAuthority_eq, List.span_eq_takeWhile_dropWhile] at h
  split at h
  · next heq =>
    cases h
    exact ⟨fun c hc => List.mem_takeWhile_imp ((Prod.mk.inj heq).1 ▸ hc), splitPort_port⟩
  · cases h
    exact ⟨nofun, splitPort_port⟩

theorem parseAuthority_parsed {p userInfo host rest : Bytes} {port : Option Int}
    (h : parseAuthority p = some ((userInfo, host, port), rest)) (hhost : host ≠ []) :
    ((∀ c ∈ userInfo, isUserInfoCharacter c = true) ∧ ∀ p ∈ port, 0 ≤ p ∧ p ≤ 2 ^ 31 - 1) ∧
      ∀ c ∈ rest.head?, (ascii "/?#").contains c = true := by
  unfold parseAuthority at h
  split at h
  · split at h
    next authority rest' hupTo =>
    split at h
    · obtain ⟨hsplit, rfl⟩ := Prod.mk.inj (Option.some.inj h)
      exact ⟨splitAuthority_parsed hsplit, head_upTo hupTo⟩
    · cases h
  · cases h
    exact absurd rfl hhost

/-- No port is read as a negative number; the one of an authority that names none is 0. -/
theorem parseAuthority_port {p userInfo host rest : Bytes} {port : Option Int}
    (h : parseAuthority p = some ((userInfo, host, port), rest)) : ∀ n ∈ port, 0 ≤ n := by
  unfold parseAuthority at h
  split at h
  · split at h
    split at h
    · obtain ⟨hsplit, -⟩ := Prod.mk.inj (Option.some.inj h)
      exact fun n hn => ((splitAuthority_parsed hsplit).2 n hn).1
    · cases h
  · cases h
    simp

theorem parsePath_parsed {p path rest : Bytes} (hfirst : ∀ c ∈ p.head?, (ascii "/?#").contains c = true)
    (h : parsePath p = some (path, rest)) :
    path.head? = some 47 ∧ ∀ c ∈ path, isPathCharacter c = true := by
  unfold parsePath at h
  split at h
  · cases h
    exact ⟨rfl, forall_mem_of_all rfl⟩
  · next hcharacter =>
    split at h
    next path' rest' hupTo =>
    split at h
    · next hall =>
      obtain ⟨rfl, rfl⟩ := Prod.mk.inj (Option.some.inj h)
      refine ⟨?_, List.all_eq_true.1 hall⟩
      cases p with
      | nil => exact absurd rfl hcharacter
      | cons c p =>
        have hc : isPathCharacter c = true := by simpa using hcharacter
        have hslash : c = 47 := by
          have hstop := hfirst c rfl
          have hquestion : c ≠ 63 := class_ne hc (by decide)
          have hhash : c ≠ 35 := class_ne hc (by decide)
          simpa [ascii, hquestion, hhash] using hstop
        rw [hslash, upTo, List.span_eq_takeWhile_dropWhile, List.takeWhile_cons_of_pos (by decide)] at hupTo
        rw [← (Prod.mk.inj hupTo).1]
        rfl
    · cases h

theorem parseQuery_parsed {p query rest : Bytes} (h : parseQuery p = some (query, rest)) :
    ∀ c ∈ query, isQueryCharacter c = true := by
  unfold parseQuery at h
  split at h
  · split at h
    next query' rest' hupTo =>
    split at h
    · next hall =>
      obtain ⟨rfl, rfl⟩ := Prod.mk.inj (Option.some.inj h)
      exact List.all_eq_true.1 hall
    · cases h
  · cases h
    nofun

theorem parseFragment_parsed {p fragment : Bytes} (h : parseFragment p = some fragment) :
    ∀ c ∈ fragment, isFragmentCharacter c = true := by
  unfold parseFragment at h
  split at h
  · split at h
    · next hall =>
      obtain rfl := Option.some.inj h
      exact List.all_eq_true.1 hall
    · cases h
  · cases h
    nofun

theorem parseFrom_parsed {s : Bytes} {u : UriComponents} (h : parseFrom s = some u) (hhost : u.host ≠ []) :
    Parsed u := by
  simp only [parseFrom, Option.bind_eq_bind, Option.bind_eq_some_iff, Prod.exists] at h
  obtain ⟨scheme, p, -, userInfo, host, port, p₁, hauthority, path, p₂, hpath, query, p₃, hquery, fragment,
    hfragment, heq⟩ := h
  obtain rfl := Option.some.inj heq
  have hne : host ≠ [] := by simpa using hhost
  obtain ⟨⟨huserInfo, hport⟩, hrest⟩ := parseAuthority_parsed hauthority hne
  obtain ⟨hfirst, hcharacters⟩ := parsePath_parsed hrest hpath
  have hscheme : (scheme.map tolower).map tolower = scheme.map tolower := by
    rw [List.map_map, show tolower ∘ tolower = tolower from funext tolower_tolower]
  exact ⟨hscheme, huserInfo, hport, hfirst, hcharacters, parseQuery_parsed hquery,
    parseFragment_parsed hfragment⟩

theorem parseFrom_port {s : Bytes} {u : UriComponents} (h : parseFrom s = some u) : ∀ n ∈ u.port, 0 ≤ n := by
  simp only [parseFrom, Option.bind_eq_bind, Option.bind_eq_some_iff, Prod.exists] at h
  obtain ⟨scheme, p, -, userInfo, host, port, p₁, hauthority, path, p₂, -, query, p₃, -, fragment,
    -, heq⟩ := h
  obtain rfl := Option.some.inj heq
  exact parseAuthority_port hauthority

/-! ## A parameter put behind a query -/

/-- A parameter as `append_query` writes it. -/
def queryParam (name value : Bytes) : Bytes := encodeQueryImpl name ++ ascii "=" ++ encodeQueryImpl value

theorem mem_queryParam {name value : Bytes} {c : UInt8} (h : c ∈ queryParam name value) :
    isEncodedCharacter c = true ∨ c = 61 := by
  rcases List.mem_append.1 h with h | h
  · rcases List.mem_append.1 h with h | h
    · exact .inl (isEncodedCharacter_encodeQueryImpl c h)
    · exact .inr (List.mem_singleton.1 h)
  · exact .inl (isEncodedCharacter_encodeQueryImpl c h)

theorem not_mem_queryParam {name value : Bytes} {c : UInt8} (hc : isEncodedCharacter c = false)
    (hne : c ≠ 61) :
    c ∉ queryParam name value := fun h =>
  (mem_queryParam h).elim (fun h => class_ne h hc rfl) hne

theorem queryParam_isQueryCharacter {name value : Bytes} :
    ∀ c ∈ queryParam name value, isQueryCharacter c = true := by
  intro c hc
  rcases mem_queryParam hc with h | rfl
  · simp only [isEncodedCharacter, Bool.and_eq_true] at h
    exact h.1.1
  · rfl

/-- The query with the parameter: the parameter alone, or behind an ampersand. -/
theorem appendQueryParam_query (m : UriComponents) (name value : Bytes) :
    ∃ query, m.appendQueryParam name value = { m with query := query } ∧
      (m.query = [] ∧ query = queryParam name value ∨
        ∃ u, query = u ++ 38 :: queryParam name value ∧ (m.query = u ∨ m.query = u ++ [38])) := by
  have hne : queryParam name value ≠ [] := by simp [queryParam, ascii]
  have hfirst : (queryParam name value).head? ≠ some 38 := fun h =>
    not_mem_queryParam (by decide) (by decide) (List.mem_of_head? h)
  have heq : m.appendQueryParam name value =
      if m.query = [] then { m with query := queryParam name value }
      else { m with query := UriComponents.appendSeparated 38 m.query (queryParam name value) } := if_neg hne
  rw [heq]
  by_cases hempty : m.query = []
  · rw [if_pos hempty]
    exact ⟨_, rfl, .inl ⟨hempty, rfl⟩⟩
  rw [if_neg hempty]
  refine ⟨_, rfl, .inr ?_⟩
  rw [UriComponents.appendSeparated, if_neg fun h => hfirst h.2]
  by_cases hlast : m.query.getLast? = some 38
  · have hquery : m.query = m.query.dropLast ++ [38] := (List.dropLast_append_getLast? 38 hlast).symm
    rw [if_neg fun h => h.1 hlast]
    refine ⟨m.query.dropLast, ?_, .inr hquery⟩
    conv_lhs => rw [hquery]
    rw [List.append_assoc, List.singleton_append]
  · rw [if_pos ⟨hlast, hfirst⟩]
    exact ⟨m.query, rfl, .inl rfl⟩

/-- **The parameter put behind a query is the one found under its name**, whatever the query holds. -/
theorem find?_appendQueryParam (m : UriComponents) {name : Bytes} (value : Bytes)
    (hname : encodeQueryImpl name = name) :
    (splitQuery (m.appendQueryParam name value).query).find? name = some (encodeQueryImpl value) := by
  have hamp : 38 ∉ queryParam name value := not_mem_queryParam (by decide) (by decide)
  have hsemi : 59 ∉ queryParam name value := not_mem_queryParam (by decide) (by decide)
  have hequals : 61 ∉ name := by
    rw [← hname]
    exact fun h => class_ne (isEncodedCharacter_encodeQueryImpl 61 h) (by decide) rfl
  have hadd : ∀ results : StringMap,
      addPair results (queryParam name value) = results.insert name (encodeQueryImpl value) := by
    intro results
    rw [queryParam, hname]
    exact addPair_param results hequals
  obtain ⟨query, heq, hquery⟩ := appendQueryParam_query m name value
  rw [heq, splitQuery]
  rcases hquery with ⟨-, rfl⟩ | ⟨u, rfl, -⟩
  · rw [splitPairs_last _ hamp hsemi, List.foldl_cons, List.foldl_nil, hadd]
    exact OrdMap.find?_insert_self _ _ _
  · obtain ⟨pairs, hpairs⟩ :=
      splitPairs_append hamp hsemi (u ++ 38 :: queryParam name value).length u (by simp)
    rw [hpairs, List.foldl_append, List.foldl_cons, List.foldl_nil, hadd]
    exact OrdMap.find?_insert_self _ _ _

/-! ## The URL at a cache host -/

/-- `HttpAgent::ValidateUrl`. -/
def validateUrl (url : Bytes) : Bool :=
  match parseFrom url with
  | none => false
  | some uri =>
    (uri.scheme.map tolower == ascii "http" || uri.scheme.map tolower == ascii "https") && !uri.host.isEmpty

/-- `INTERNET_DEFAULT_PORT`: the default port of the protocol. -/
def internetDefaultPort : UInt16 := 0

/-- `SwapUrlHostNameForMCC`. -/
def swapUrlHostNameForMCC (url newHostname : Bytes) (port : UInt16) : Except StdException Bytes := do
  let inputUri ← ofString url
  let outputUri := { inputUri with host := newHostname }
  let outputUri :=
    if port ≠ internetDefaultPort then { outputUri with port := some port.toNat } else outputUri
  (outputUri.appendQueryParam (ascii "cacheHostOrigin") inputUri.host).toString

theorem validateUrl_some {url : Bytes} {u : UriComponents} (h : validateUrl url = true)
    (hu : parseFrom url = some u) :
    (u.scheme.map tolower = ascii "http" ∨ u.scheme.map tolower = ascii "https") ∧ u.host ≠ [] := by
  simpa [validateUrl, hu] using h

/-- The parts with which the URL is joined. -/
theorem plain_swapped {url newHostname : Bytes} {u m : UriComponents} (hvalid : validateUrl url = true)
    (hu : parseFrom url = some u) (hport : u.port ≠ none) (hne : newHostname ≠ [])
    (hhost : ∀ c ∈ newHostname, isUnreserved c = true)
    (hm : { u with host := newHostname }.appendQueryParam (ascii "cacheHostOrigin") u.host = m) :
    Plain m ∧ m.host = newHostname ∧ m.scheme = u.scheme ∧ m.userInfo = u.userInfo ∧ m.port = u.port ∧
      m.path = u.path ∧ m.fragment = u.fragment ∧ u.query <+: m.query := by
  obtain ⟨hscheme, huhost⟩ := validateUrl_some hvalid hu
  have hparsed := parseFrom_parsed hu huhost
  rw [hparsed.lowerScheme] at hscheme
  obtain ⟨query, heq, hquery⟩ :=
    appendQueryParam_query { u with host := newHostname } (ascii "cacheHostOrigin") u.host
  obtain rfl := heq.symm.trans hm
  have hprefix : u.query <+: query := by
    rcases hquery with ⟨hempty, -⟩ | ⟨v, rfl, hv | hv⟩
    · rw [show u.query = [] from hempty]
      exact List.nil_prefix
    · rw [show u.query = v from hv]
      exact List.prefix_append _ _
    · rw [show u.query = v ++ [38] from hv]
      exact ⟨_, List.append_assoc ..⟩
  have hcharacters : ∀ c ∈ query, isQueryCharacter c = true := by
    rcases hquery with ⟨-, rfl⟩ | ⟨v, rfl, hv⟩
    · exact queryParam_isQueryCharacter
    · have hall : ∀ c ∈ v, isQueryCharacter c = true := fun c hc =>
        hparsed.query c (hv.elim (fun hv => hv ▸ hc) fun hv => hv ▸ List.mem_append_left _ hc)
      exact List.forall_mem_append.2 ⟨hall, List.forall_mem_cons.2 ⟨rfl, queryParam_isQueryCharacter⟩⟩
  refine ⟨⟨⟨hparsed.lowerScheme, hparsed.userInfo, hparsed.port, hparsed.pathFirst, hparsed.path, hcharacters,
    hparsed.fragment⟩, ?_, ?_, hne, hhost, hport⟩, rfl, rfl, rfl, rfl, rfl, rfl, hprefix⟩
  · rcases hscheme with h | h <;> rw [h] <;> rfl
  · rcases hscheme with h | h <;> rw [h] <;> exact forall_mem_of_all rfl

/-- **The swapped URL keeps the request and the origin.** For a URL that is valid and a plain host name, the
swap does not throw, its URL is valid and has every part of the old one but the host, and the parameter read off its
query is the old host. -/
theorem swapUrlHostNameForMCC_keeps {url newHostname : Bytes} {u : UriComponents}
    (hvalid : validateUrl url = true) (hu : parseFrom url = some u) (hport : u.port ≠ none)
    (hne : newHostname ≠ []) (hhost : ∀ c ∈ newHostname, isUnreserved c = true) :
    ∃ swapped v, swapUrlHostNameForMCC url newHostname internetDefaultPort = .ok swapped ∧
      validateUrl swapped = true ∧ parseFrom swapped = some v ∧
      v.scheme = u.scheme ∧ v.userInfo = u.userInfo ∧ v.port = u.port ∧ v.path = u.path ∧
      v.fragment = u.fragment ∧ v.host = newHostname.map tolower ∧ u.query <+: v.query ∧
      ∃ value, (splitQuery v.query).find? (ascii "cacheHostOrigin") = some value ∧
        decode value = .ok u.host := by
  obtain ⟨m, hm⟩ :
    ∃ m, { u with host := newHostname }.appendQueryParam (ascii "cacheHostOrigin") u.host = m :=
    ⟨_, rfl⟩
  obtain ⟨hplain, hmhost, hscheme, huserInfo, hmport, hpath, hfragment, hquery⟩ :=
    plain_swapped hvalid hu hport hne hhost hm
  have hparse := parseFrom_join hplain
  refine ⟨m.join, _, ?_, ?_, hparse, hscheme, huserInfo, hmport, hpath, hfragment, by rw [hmhost],
    hquery, _, ?_, decode_encodeQueryImpl u.host⟩
  · have hbuilt : swapUrlHostNameForMCC url newHostname internetDefaultPort = m.toString := by
      rw [swapUrlHostNameForMCC, ofString, hu, ← hm]
      rfl
    rw [hbuilt, UriComponents.toString, hparse]
    rfl
  · obtain ⟨hhttp, -⟩ := validateUrl_some hvalid hu
    simp [validateUrl, hparse, hscheme, hhttp, hplain.hostNe]
  · rw [← hm]
    exact find?_appendQueryParam _ _ (by decide)

theorem swapUrlHostNameForMCC_keeps_origin : ∃ swapped v,
    swapUrlHostNameForMCC (ascii "http://user@[::1]:8080?a=1;cacheHostOrigin=b&#end") (ascii "Cache-7")
      internetDefaultPort = .ok swapped ∧ parseFrom swapped = some v ∧ v.port = some 8080 ∧
      ∃ value, (splitQuery v.query).find? (ascii "cacheHostOrigin") = some value ∧
        decode value = .ok (ascii "[::1]") := by
  have hu : parseFrom (ascii "http://user@[::1]:8080?a=1;cacheHostOrigin=b&#end") = some {
      scheme := ascii "http", userInfo := ascii "user", host := ascii "[::1]", port := some 8080
      query := ascii "a=1;cacheHostOrigin=b&", fragment := ascii "end" } := by decide +kernel
  obtain ⟨swapped, v, hswapped, -, hv, -, -, hport, -, -, -, -, hvalue⟩ :=
    @swapUrlHostNameForMCC_keeps _ (ascii "Cache-7") _ (by decide +kernel) hu nofun nofun
      (forall_mem_of_all rfl)
  exact ⟨swapped, v, hswapped, hv, hport, hvalue⟩

end Uri

end DoClient
