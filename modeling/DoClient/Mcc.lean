/-
The vendored URI library as the client uses it, and `MCCManager`
(`config/mcc_manager.cpp`): which cache hosts are banned, for every original
host or for one.
-/
import DoClient.HResult
import DoClient.TaskQueue

namespace DoClient

/-- What the client asks of `cpprest_web::uri` and `uri_builder`. -/
structure UriLib where
  /-- `uri::validate`. -/
  validate : String → Bool
  /-- `uri{url}.scheme()`. -/
  scheme : String → String
  /-- `uri{url}.host()`, asked of URLs that `validate` has let through: of another
  the constructor throws. -/
  host : String → String
  /-- `SwapUrlHostNameForMCC(url, newHostname)`, or what it throws. -/
  swapUrlHostNameForMCC : String → String → Except HResult String
  /-- A proxy address without its port, and the port: 0 when it names none, which is what
  `inner_parse_out` starts with. -/
  proxyAddress : String → Except HResult (String × Nat)

structure OriginalHostStatus where
  host : String
  timeOfUnban : Int
  deriving DecidableEq, Repr

structure MccHost where
  address : String
  timeOfUnban : Int
  timeOfUnbanForOriginalHosts : List OriginalHostStatus
  deriving DecidableEq, Repr

/-- `steady_clock::time_point::min()`. -/
def timePointMin : Int := -2 ^ 63

/-- `g_mccHostBanInterval`. -/
def mccHostBanInterval : Int := seconds (15 * 60)

namespace MccHost

/-- A host not banned. -/
def new (address : String) : MccHost := ⟨address, timePointMin, []⟩

def ban (h : MccHost) (now banInterval : Int) : MccHost := { h with timeOfUnban := now + banInterval }

def banForOriginalHost (h : MccHost) (now : Int) (originalHost : String) (banInterval : Int) : MccHost :=
  let timeOfUnban := now + banInterval
  if h.timeOfUnbanForOriginalHosts.any (·.host == originalHost) then
    { h with
      timeOfUnbanForOriginalHosts := replaceFirst originalHost timeOfUnban h.timeOfUnbanForOriginalHosts }
  else
    { h with timeOfUnbanForOriginalHosts := h.timeOfUnbanForOriginalHosts ++ [⟨originalHost, timeOfUnban⟩] }
where
  /-- Sets the time of the first entry for the host (`std::find`). -/
  replaceFirst (host : String) (t : Int) : List OriginalHostStatus → List OriginalHostStatus
    | [] => []
    | s :: rest =>
      if s.host == host then { s with timeOfUnban := t } :: rest else s :: replaceFirst host t rest

def isBanned (h : MccHost) (now : Int) (originalHost : String) : Bool :=
  if now < h.timeOfUnban then true
  else match h.timeOfUnbanForOriginalHosts.find? (·.host == originalHost) with
    | some s => decide (now < s.timeOfUnban)
    | none => false

end MccHost

/-- `HttpAgent::IsClientError`: a 4xx code. -/
def isClientError (httpStatusCode : Nat) : Bool := 400 ≤ httpStatusCode && httpStatusCode < 500

structure MccManager where
  mccHosts : List MccHost := []
  deriving DecidableEq, Repr

namespace MccManager

/-- Applies `f` to the first entry for the address (`std::find`), added if there is none. -/
def update (address : String) (f : MccHost → MccHost) : List MccHost → List MccHost
  | [] => [f (MccHost.new address)]
  | h :: rest => if h.address == address then f h :: rest else h :: update address f rest

/-- `ReportHostError`: a 4xx bans the cache host for the one original host, an
unresponsive cache host is banned for all. -/
def reportHostError (uri : UriLib) (m : MccManager) (now : Int) (hr : HResult) (httpStatusCode : Nat)
    (mccHost originalUrl : String) : MccManager :=
  let perHostFatalError := isClientError httpStatusCode
  let generalFatalError := hr = HResult.WININET_E_TIMEOUT || hr = HResult.ERROR_WINHTTP_NAME_NOT_RESOLVED ||
    hr = HResult.ERROR_WINHTTP_CANNOT_CONNECT
  let originalHost := uri.host originalUrl
  if perHostFatalError || generalFatalError then
    if perHostFatalError then
      ⟨update mccHost (·.banForOriginalHost now originalHost mccHostBanInterval) m.mccHosts⟩
    else
      ⟨update mccHost (·.ban now mccHostBanInterval) m.mccHosts⟩
  else m

def isBanned (uri : UriLib) (m : MccManager) (now : Int) (mccHost originalUrl : String) : Bool :=
  match m.mccHosts.find? (·.address == mccHost) with
  | none => false
  | some h => h.isBanned now (uri.host originalUrl)

end MccManager

end DoClient
