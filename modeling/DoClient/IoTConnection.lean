/-
The MCC host of an IoT device (`config/mcc_manager.cpp`): the gateway named in
its connection string, a list of `key=value` pairs with `;` between them. The
function does not split the string into pairs: it looks for the text
`GatewayHostName=` wherever that stands, in another key or in a value too.
-/
import DoClient.Bytes
import DoClient.Lib.Search

namespace DoClient

/-- `strcasestr`. -/
def strcasestr (haystack needle : Bytes) : Option Bytes := Search.search tolower (needle.map tolower) haystack

def getHostNameFromIoTConnectionString (connectionString : Bytes) : Bytes :=
  let toFind := ascii "GatewayHostName="
  match strcasestr connectionString toFind with
  | none => []
  | some start =>
    let start := start.drop toFind.length
    match start.findIdx? (· == 59) with
    | none => start
    | some end_ => start.take end_

/-- What `MCCManager::GetHost` reads of the configuration. -/
structure MccConfigs where
  cacheHostServer : Option Bytes
  iotConnectionString : Bytes

/-- `MCCManager::GetHost`. -/
def MccConfigs.getHost (c : MccConfigs) : Bytes :=
  match c.cacheHostServer with
  | some host => host
  | none =>
    if c.iotConnectionString = [] then []
    else getHostNameFromIoTConnectionString (cstr c.iotConnectionString)

/-! ## Well-formed connection strings -/

/-- A `key=value` pair of a C string: no `;` in it, and no `=` in the key. -/
structure IoTPair where
  key : Bytes
  value : Bytes
  key_plain : ∀ c ∈ key, c ≠ 61 ∧ c ≠ 59 ∧ c ≠ 0
  value_plain : ∀ c ∈ value, c ≠ 59 ∧ c ≠ 0

/-- The name that `=` ends in the text looked for. -/
def gatewayKey : Bytes := ascii "GatewayHostName"

namespace IoTPair

def text (p : IoTPair) : Bytes := p.key ++ 61 :: p.value

/-- The pair has the key `GatewayHostName`, ignoring case. -/
def Names (p : IoTPair) : Prop := p.key.map tolower = gatewayKey.map tolower

instance (p : IoTPair) : Decidable p.Names := inferInstanceAs (Decidable (_ = _))

/-- What follows the first `GatewayHostName=` in the text of the pair, ignoring case. -/
def mention (p : IoTPair) : Option Bytes :=
  Search.after tolower ((ascii "GatewayHostName=").map tolower) p.text

theorem semicolon_not_mem_text (p : IoTPair) : 59 ∉ p.text := by
  intro h
  rcases List.mem_append.1 h with hkey | hvalue
  · exact (p.key_plain _ hkey).2.1 rfl
  · rcases List.mem_cons.1 hvalue with heq | hvalue
    · exact absurd heq (by decide)
    · exact (p.value_plain _ hvalue).1 rfl

theorem text_plain (p : IoTPair) : ∀ c ∈ p.text, c ≠ 0 := by
  intro c h
  rcases List.mem_append.1 h with hkey | hvalue
  · exact (p.key_plain _ hkey).2.2
  · rcases List.mem_cons.1 hvalue with rfl | hvalue
    · decide
    · exact (p.value_plain _ hvalue).2

/-- A pair with the key holds the text at its very start, and the value is what follows. -/
theorem mention_of_names {p : IoTPair} (h : p.Names) : p.mention = some p.value := by
  have hword : (ascii "GatewayHostName=").map tolower = p.key.map tolower ++ [tolower 61] := by
    rw [h]
    decide
  have hlength : p.key.length + 1 = ((ascii "GatewayHostName=").map tolower).length := by
    simp [hword]
  have hprefix : (ascii "GatewayHostName=").map tolower <+: p.text.map tolower :=
    ⟨p.value.map tolower, by simp [hword, text]⟩
  rw [mention, Search.after_of_prefix hprefix, ← hlength, text]
  simp

end IoTPair

/-- `k1=v1;k2=v2;...;kn=vn` -/
def connectionString (pairs : List IoTPair) : Bytes := [59].intercalate (pairs.map IoTPair.text)

/-- The value of the first pair with the key. -/
def gatewayHostName (pairs : List IoTPair) : Bytes := ((pairs.find? (·.Names)).map IoTPair.value).getD []

/-- Behind pairs without the text comes one with another key that holds it, and what follows
the text there is not the value that the pairs behind it name. -/
def Misled (pairs : List IoTPair) : Prop :=
  ∃ before p after text, pairs = before ++ p :: after ∧ (∀ q ∈ before, q.mention = none) ∧ ¬ p.Names ∧
    p.mention = some text ∧ text ≠ gatewayHostName after

section Result

variable {p : IoTPair} {pairs : List IoTPair}

theorem gatewayHostName_cons (p : IoTPair) (pairs : List IoTPair) :
    gatewayHostName (p :: pairs) = if p.Names then p.value else gatewayHostName pairs := by
  by_cases h : p.Names <;> simp [gatewayHostName, h]

/-- The text up to the `;` that `strchr` finds. -/
theorem upTo_semicolon (s : Bytes) : (match s.findIdx? (· == 59) with
    | none => s
    | some end_ => s.take end_) = s.takeWhile (· != 59) := by
  have htake : s.takeWhile (· != 59) = s.take (s.findIdx (· == 59)) := by
    rw [List.takeWhile_eq_take_findIdx_not]
    simp [bne]
  cases h : s.findIdx? (· == 59) with
  | none => rw [htake, List.findIdx?_eq_none_iff_findIdx_eq.1 h, List.take_length]
  | some i => rw [htake, (List.findIdx?_eq_some_iff_findIdx_eq.1 h).2]

/-- **The function answers with what the first pair that holds the text has behind it.** -/
theorem getHostName_eq (pairs : List IoTPair) :
    getHostNameFromIoTConnectionString (connectionString pairs) =
      (pairs.findSome? IoTPair.mention).getD [] := by
  have hfields : ∀ a ∈ pairs.map IoTPair.text, 59 ∉ a := fun a ha => by
    obtain ⟨p, -, rfl⟩ := List.mem_map.1 ha
    exact p.semicolon_not_mem_text
  have hword : (ascii "GatewayHostName=").map tolower ≠ [] := by decide
  have hsep : tolower 59 ∉ (ascii "GatewayHostName=").map tolower := by decide
  have hsearch := Search.after_intercalate hsep hword hfields
  rw [List.findSome?_map] at hsearch
  change _ = pairs.findSome? IoTPair.mention at hsearch
  rw [← hsearch, getHostNameFromIoTConnectionString, strcasestr, connectionString, Search.after]
  cases Search.search tolower ((ascii "GatewayHostName=").map tolower)
      ([59].intercalate (pairs.map IoTPair.text)) with
  | none => rfl
  | some start =>
    simp only [upTo_semicolon, Option.map_some, Option.getD_some, List.length_map]

theorem misled_nil : ¬ Misled [] := by
  rintro ⟨before, p, after, text, hpairs, -⟩
  exact List.append_ne_nil_of_right_ne_nil before (List.cons_ne_nil p after) hpairs.symm

/-- A pair without the text misleads nobody. -/
theorem misled_cons_of_none (h : p.mention = none) : Misled (p :: pairs) ↔ Misled pairs := by
  constructor
  · rintro ⟨before, q, after, text, hpairs, hbefore, hkey, htext, hne⟩
    cases before with
    | nil =>
      obtain ⟨rfl, -⟩ := List.cons.inj hpairs
      rw [h] at htext
      cases htext
    | cons _ before =>
      obtain ⟨rfl, rfl⟩ := List.cons.inj hpairs
      exact ⟨before, q, after, text, rfl, (List.forall_mem_cons.1 hbefore).2, hkey, htext, hne⟩
  · rintro ⟨before, q, after, text, rfl, hbefore, hrest⟩
    exact ⟨p :: before, q, after, text, rfl, List.forall_mem_cons.2 ⟨h, hbefore⟩, hrest⟩

/-- The first pair with the text decides. -/
theorem misled_cons_of_some {text : Bytes} (h : p.mention = some text) :
    Misled (p :: pairs) ↔ ¬ p.Names ∧ text ≠ gatewayHostName pairs := by
  constructor
  · rintro ⟨before, q, after, text', hpairs, hbefore, hkey, htext, hne⟩
    cases before with
    | nil =>
      obtain ⟨rfl, rfl⟩ := List.cons.inj hpairs
      obtain rfl := Option.some.inj (h.symm.trans htext)
      exact ⟨hkey, hne⟩
    | cons r before =>
      obtain ⟨rfl, -⟩ := List.cons.inj hpairs
      have hnone := hbefore p List.mem_cons_self
      rw [h] at hnone
      cases hnone
  · rintro ⟨hkey, hne⟩
    exact ⟨[], p, pairs, text, rfl, by simp, hkey, h, hne⟩

/-- **The host is the value of the first pair with the key, or empty when none has it, exactly
when no other pair misleads.** -/
theorem getHostName_is_gateway_iff (pairs : List IoTPair) :
    getHostNameFromIoTConnectionString (connectionString pairs) = gatewayHostName pairs ↔ ¬ Misled pairs := by
  rw [getHostName_eq]
  induction pairs with
  | nil => simp [gatewayHostName, misled_nil]
  | cons p pairs ih =>
    rw [gatewayHostName_cons, List.findSome?_cons]
    cases h : p.mention with
    | none =>
      have hkey : ¬ p.Names := fun hkey => by
        rw [IoTPair.mention_of_names hkey] at h
        cases h
      rw [if_neg hkey, misled_cons_of_none h]
      exact ih
    | some text =>
      rw [misled_cons_of_some h, Option.getD_some]
      by_cases hkey : p.Names
      · obtain rfl := Option.some.inj (h.symm.trans (IoTPair.mention_of_names hkey))
        simp [hkey]
      · simp [hkey]

/-- A connection string for `h` whose gateway is `gw`; the id of the device holds the text too. -/
def twoGateways : List IoTPair :=
  [⟨ascii "HostName", ascii "h", forall_mem_of_all rfl, forall_mem_of_all rfl⟩,
    ⟨ascii "DeviceId", ascii "GatewayHostName=other", forall_mem_of_all rfl, forall_mem_of_all rfl⟩,
    ⟨ascii "GatewayHostName", ascii "gw", forall_mem_of_all rfl, forall_mem_of_all rfl⟩]

theorem getHostName_twoGateways :
    connectionString twoGateways = ascii "HostName=h;DeviceId=GatewayHostName=other;GatewayHostName=gw" ∧
      getHostNameFromIoTConnectionString (connectionString twoGateways) = ascii "other" ∧
      gatewayHostName twoGateways = ascii "gw" := by
  decide

theorem connectionString_plain : ∀ pairs : List IoTPair, ∀ c ∈ connectionString pairs, c ≠ 0
  | [], c, hc => by
    cases hc
  | [p], c, hc => by
    rw [connectionString, List.map_singleton, List.intercalate_singleton] at hc
    exact p.text_plain c hc
  | p :: q :: pairs, c, hc => by
    simp only [connectionString, List.map_cons, List.intercalate_cons_cons, List.mem_append,
      List.mem_singleton] at hc
    rcases hc with (hp | rfl) | hpairs
    · exact p.text_plain c hp
    · decide
    · exact connectionString_plain (q :: pairs) c hpairs

/-- Where the text stands only behind the key itself, `GetHost` answers with the gateway, unless
the administrator has configured a host. -/
theorem getHost_eq_gateway (host : Option Bytes) (h : ∀ p ∈ pairs, p.mention ≠ none → p.Names) :
    (MccConfigs.mk host (connectionString pairs)).getHost = host.getD (gatewayHostName pairs) := by
  have hgateway : getHostNameFromIoTConnectionString (connectionString pairs) = gatewayHostName pairs := by
    refine (getHostName_is_gateway_iff pairs).2 ?_
    rintro ⟨before, p, after, text, rfl, -, hkey, htext, -⟩
    exact hkey (h p (by simp) (by simp [htext]))
  cases host with
  | some host => rfl
  | none =>
    simp only [MccConfigs.getHost, cstr_eq (connectionString_plain pairs), Option.getD_none]
    by_cases hempty : connectionString pairs = []
    · rw [if_pos hempty, ← hgateway, hempty]
      rfl
    · rw [if_neg hempty, hgateway]

end Result

end DoClient
