/-
The APT method of `plugins/linux-apt`: what the plugin makes of the commands
APT sends it. Each command to acquire a URI is answered by one message, whatever
becomes of the download; no other command is.
-/
import DoClient.AptMessage
import DoClient.Uri

namespace DoClient.Apt

open Paragraphs (paragraphs message)

/-! ## The world outside -/

/-- What `download_url_to_path` comes to. -/
inductive Downloaded
  | done
  | error (value : Int) (message : Bytes)
  | throws (what : Bytes)
  deriving DecidableEq, Repr

/-- What reading a file for its hashes comes to; the digests are OpenSSL's. -/
inductive FileRead
  | openBad
  | readBad
  | readFailed (bytesRead : Nat)
  | throws (what : Bytes)
  | whole (fileSizeBytes : Nat) (md5sum sha1sum sha256sum sha512sum : Bytes)
  deriving DecidableEq, Repr

/-- What the world outside has for one command. -/
structure Fetch where
  /-- `uuid_generate`, in lower case. -/
  guid : Bytes := []
  download : (url tempPath : Bytes) → Downloaded := fun _ _ => .done
  /-- The `errno` of a `rename` or a `remove` that fails. -/
  rename : (tempPath destFilePath : Bytes) → Option Int := fun _ _ => none
  remove : (path : Bytes) → Option Int := fun _ => none
  read : (filePath : Bytes) → FileRead

/-- The plugin: what it wrote, and the files it deleted, last first. -/
structure Plugin where
  cout : Bytes := []
  cerr : List Bytes := []
  removed : List Bytes := []
  /-- The commands to acquire a URI so far. -/
  acquired : Nat := 0
  deriving DecidableEq, Repr

/-! ## Files -/

/-- `strutil::HexEncode`. -/
def hexEncode (src : Bytes) : Bytes :=
  (src.flatMap fun b : UInt8 => [Uri.hexDigit ((b >>> 4) &&& 0xF), Uri.hexDigit (b &&& 0xF)]).map tolower

structure HashResult where
  fileSizeBytes : Nat
  md5Digest : Bytes
  md5SumDigest : Bytes
  sha1Digest : Bytes
  sha256Digest : Bytes
  sha512Digest : Bytes
  deriving DecidableEq, Repr

/-- `FileHashes`. -/
def fileHashes (f : Fetch) (filePath : Bytes) : Except Exception HashResult :=
  match f.read filePath with
  | .openBad => .error (.plugin (formatString (ascii "Failed to open file " ++ cstr filePath)))
  | .readBad => .error (.plugin (formatString (ascii "Failed to read file " ++ cstr filePath)))
  | .readFailed bytesRead => .error (.plugin (formatString
      (ascii "Failed to read file " ++ cstr filePath ++ ascii ", bytesRead now: " ++ toDecimal bytesRead)))
  | .throws what => .error (.std what)
  | .whole fileSizeBytes md5sum sha1sum sha256sum sha512sum => .ok
      { fileSizeBytes
        md5Digest := hexEncode md5sum
        md5SumDigest := hexEncode md5sum
        sha1Digest := hexEncode sha1sum
        sha256Digest := hexEncode sha256sum
        sha512Digest := hexEncode sha512sum }

/-- `GenerateUniqueCachePath`. -/
def generateUniqueCachePath (guid : Bytes) : Bytes :=
  ascii "/var/cache/deliveryoptimization-plugin-apt" ++ ascii "/" ++ guid ++ ascii ".tmp"

namespace Plugin

variable (p : Plugin)

def logError (text : Bytes) : Plugin := { p with cerr := formatString text :: p.cerr }

def tryDeleteFile (f : Fetch) (path : Bytes) : Plugin :=
  if path.isEmpty then p
  else
    let p := { p with removed := path :: p.removed }
    match f.remove path with
    | some errno =>
      p.logError (ascii "Failed to delete file, " ++ toDecimalInt errno ++ ascii ": " ++ cstr path)
    | none => p

end Plugin

/-! ## Messages -/

def sendAPTMessage (code : APTMsgCode) (keyValues : List Bytes) (p : Plugin) :
    Except Exception Unit × Plugin :=
  match constructAPTMessage code keyValues with
  | .error e => (.error e, p)
  | .ok msg => (.ok (), { p with cout := p.cout ++ msg })

def sendUriFailure (url msg : Bytes) (p : Plugin) : Except Exception Unit × Plugin :=
  sendAPTMessage .uriFailure [ascii "URI", url, ascii "Message", msg] p

def sendUriDone (url : Bytes) (fileSizeBytes : Nat) (filePath : Bytes) (hashes : List Bytes) (p : Plugin) :
    Except Exception Unit × Plugin :=
  sendAPTMessage .uriDone
    ([ascii "URI", url, ascii "Size", toDecimal fileSizeBytes, ascii "Filename", filePath] ++ hashes) p

/-! ## Downloads -/

structure DownloadResult where
  fileSizeBytes : Nat
  hashes : List Bytes
  deriving DecidableEq, Repr

/-- The hashes as header names and values. -/
def HashResult.downloadResult (h : HashResult) : DownloadResult where
  fileSizeBytes := h.fileSizeBytes
  hashes :=
    [ascii "MD5-Hash", h.md5Digest, ascii "MD5Sum-Hash", h.md5SumDigest, ascii "SHA1-Hash", h.sha1Digest,
    ascii "SHA256-Hash", h.sha256Digest, ascii "SHA512-Hash", h.sha512Digest]

/-- The `try` block of `SimpleDownload`. -/
def downloadAndRename (f : Fetch) (url tempPath destFilePath : Bytes) : Except Exception Unit :=
  match f.download url tempPath with
  | .throws what => .error (.std what)
  | .error value message => .error (.plugin (formatString
      (ascii "Download error: " ++ toDecimalInt value ++ ascii ", " ++ cstr message)))
  | .done =>
    match f.rename tempPath destFilePath with
    | some errno =>
      .error (.plugin (formatString (ascii "Rename error: " ++ toDecimalInt errno ++ ascii ", " ++
        cstr tempPath ++ ascii " --> " ++ cstr destFilePath)))
    | none => .ok ()

/-- `SimpleDownload`. The temporary file goes when an exception comes out of the `try` block. -/
def simpleDownload (f : Fetch) (url destFilePath : Bytes) (p : Plugin) :
    Except Exception DownloadResult × Plugin :=
  let tempPath := generateUniqueCachePath f.guid
  match downloadAndRename f url tempPath destFilePath with
  | .error (.std what) =>
    (.error (.plugin (formatString (ascii "Download exception: " ++ cstr what))), p.tryDeleteFile f tempPath)
  | .error (.plugin what) => (.error (.plugin what), p.tryDeleteFile f tempPath)
  | .ok () => ((fileHashes f destFilePath).map HashResult.downloadResult, p)

/-- The schemes the plugin downloads from. -/
def supportedUrl (url : Bytes) : Bool := (ascii "http://").isPrefixOf url || (ascii "https://").isPrefixOf url

/-- The `try` block of `WorkUriAcquire`. -/
def acquireUri (f : Fetch) (url filePath : Bytes) (p : Plugin) : Except Exception Unit × Plugin :=
  if !supportedUrl url then (.error (.plugin (formatString (ascii "Unsupported protocol: " ++ cstr url))), p)
  else
    match simpleDownload f url filePath p with
    | (.error e, p) => (.error e, p)
    | (.ok result, p) => sendUriDone url result.fileSizeBytes filePath result.hashes p

/-- `WorkUriAcquire`. The message of a failure is the path of the file. -/
def workUriAcquire (f : Fetch) (url filePath : Bytes) (p : Plugin) : Except Exception Unit × Plugin :=
  match acquireUri f url filePath p with
  | (.ok (), p) => (.ok (), p)
  | (.error (.plugin what), p) =>
    sendUriFailure url filePath (p.logError (ascii "DO exception in download: " ++ cstr what))
  | (.error (.std what), p) =>
    sendUriFailure url filePath (p.logError (ascii "C++ exception in download: " ++ cstr what))

theorem receiveAPTMessage_shortens {cin rest : Bytes} {command : APTCommand}
    (h : receiveAPTMessage cin = (command, rest)) (heof : ¬ command.eof = true) :
    rest.length < cin.length := by
  rcases receiveAPTMessage_paragraph cin with ⟨hend, -⟩ | ⟨-, -, _, _, hreceived, hlt, -⟩
  · rw [h] at hend
    exact absurd hend heof
  · obtain ⟨-, rfl⟩ := Prod.mk.inj (h.symm.trans hreceived)
    exact hlt

/-- The `while (true)` of `WorkLoop`. -/
def workLoopCommands (fetches : Nat → Fetch) (cin : Bytes) (p : Plugin) : Except Exception Unit × Plugin :=
  match _h : receiveAPTMessage cin with
  | (command, rest) =>
    if _heof : command.eof = true then (.ok (), p)
    else if command.code = ascii "600" then
      match workUriAcquire (fetches p.acquired) (command.header (ascii "URI"))
        (command.header (ascii "Filename"))
        { p with acquired := p.acquired + 1 } with
      | (.error e, p) => (.error e, p)
      | (.ok (), p) => workLoopCommands fetches rest p
    else workLoopCommands fetches rest p
termination_by cin.length
decreasing_by all_goals exact receiveAPTMessage_shortens _h _heof

def capabilities : List (Bytes × Bytes) :=
  [(ascii "Version", ascii "0.5.1"), (ascii "Single-Instance", ascii "false"),
    (ascii "Send-Config", ascii "false"), (ascii "Pipeline", ascii "true")]

/-- `WorkLoop`. -/
def workLoop (fetches : Nat → Fetch) (cin : Bytes) (p : Plugin) : Except Exception Unit × Plugin :=
  match sendAPTMessage .capabilities (capabilities.flatMap fun field => [field.1, field.2]) p with
  | (.error e, p) => (.error e, p)
  | (.ok (), p) => workLoopCommands fetches cin p

/-! ## Replies -/

/-- The answer to a command to acquire a URI. -/
inductive Reply
  | done (uri filename : Bytes) (hashes : HashResult)
  | failure (uri message : Bytes)
  deriving DecidableEq, Repr

namespace Reply

def uri : Reply → Bytes
  | done uri .. | failure uri _ => uri

def isDone : Reply → Bool
  | done .. => true
  | failure .. => false

def code : Reply → APTMsgCode
  | done .. => .uriDone
  | failure .. => .uriFailure

def fields : Reply → List (Bytes × Bytes)
  | done uri filename hashes =>
    [(ascii "URI", uri), (ascii "Size", toDecimal hashes.fileSizeBytes), (ascii "Filename", filename),
      (ascii "MD5-Hash", hashes.md5Digest), (ascii "MD5Sum-Hash", hashes.md5SumDigest),
      (ascii "SHA1-Hash", hashes.sha1Digest), (ascii "SHA256-Hash", hashes.sha256Digest),
      (ascii "SHA512-Hash", hashes.sha512Digest)]
  | failure uri message => [(ascii "URI", uri), (ascii "Message", message)]

/-- The lines of the reply: its status and one for each field. -/
def lines (r : Reply) : List Bytes := messageLines r.code r.fields

/-- No field of the reply breaks its line. -/
def Clean (r : Reply) : Prop := ∀ field ∈ r.fields, LF ∉ field.1 ∧ LF ∉ field.2

end Reply

/-- The file is downloaded, and renamed to where APT wants it. -/
def Fetch.Saves (f : Fetch) (url filePath : Bytes) : Prop :=
  f.download url (generateUniqueCachePath f.guid) = .done ∧
    f.rename (generateUniqueCachePath f.guid) filePath = none

/-- The URL is one to download from, and the download, the rename and the hashing succeed. -/
def Fetch.Succeeds (f : Fetch) (url filePath : Bytes) : Prop :=
  supportedUrl url = true ∧ f.Saves url filePath ∧ ∃ hashes, fileHashes f filePath = .ok hashes

/-- A paragraph is a command to acquire a URI. -/
def IsAcquire : List Bytes → Prop
  | [] => False
  | line :: _ => ∃ description, IsCommand line (ascii "600") description

/-- The replies the paragraphs of the input call for, from the `n`th command to acquire
a URI on: one for each such command, with the URI it names, and none for the others. -/
inductive Answered (fetches : Nat → Fetch) : Nat → List (List Bytes) → List Reply → Prop
  | nil {n} : Answered fetches n [] []
  | other {n block blocks replies} : ¬ IsAcquire block → Answered fetches n blocks replies →
    Answered fetches n (block :: blocks) replies
  | acquire {n line lines blocks r replies} : IsAcquire (line :: lines) → HeaderIs lines (ascii "URI") r.uri →
    (∃ filePath, HeaderIs lines (ascii "Filename") filePath ∧
      (r.isDone = true ↔ (fetches n).Succeeds r.uri filePath)) →
    Answered fetches (n + 1) blocks replies → Answered fetches n ((line :: lines) :: blocks) (r :: replies)

theorem HeaderIs.not_mem {lines : List Bytes} {name value : Bytes} (h : HeaderIs lines name value) :
    LF ∉ value := by
  rcases h with ⟨-, -, -, -, ⟨-, -, -, -, -, -, -, hdot, -⟩, -⟩ | ⟨-, rfl⟩
  · intro hmem
    have hlf := hdot LF hmem
    exact absurd hlf (by decide)
  · simp

/-! ## Lines -/

theorem not_mem_toDecimal (n : Nat) : LF ∉ toDecimal n := fun h =>
  class_ne (toDecimal_isdigit LF h) (x := LF) (by decide) rfl

theorem not_mem_hexEncode (src : Bytes) : LF ∉ hexEncode src := by
  have hdigit : ∀ n : UInt8, tolower (Uri.hexDigit (n &&& 0xF)) ≠ LF := fun n => by
    have hdigits : ∀ n : Fin 16, tolower ((ascii "0123456789ABCDEF").getD n 0) ≠ LF := by decide
    have hlt : (n &&& 0xF).toNat < 16 := by
      rw [UInt8.toNat_and]
      exact Nat.and_lt_two_pow (n := 4) _ (by decide)
    exact hdigits ⟨_, hlt⟩
  unfold hexEncode
  intro h
  obtain ⟨c, hc, hlf⟩ := List.mem_map.1 h
  obtain ⟨b, -, hb⟩ := List.mem_flatMap.1 hc
  rcases List.mem_cons.1 hb with rfl | hb
  · exact hdigit _ hlf
  · exact hdigit b (List.mem_singleton.1 hb ▸ hlf)

/-! ## What is written -/

theorem sendAPTMessage_fields (code : APTMsgCode) (fields : List (Bytes × Bytes)) (p : Plugin) :
    sendAPTMessage code (fields.flatMap fun field => [field.1, field.2]) p =
      (.ok (), { p with cout := p.cout ++ message LF (messageLines code fields) }) := by
  rw [sendAPTMessage, constructAPTMessage_fields]

theorem fileHashes_clean {f : Fetch} {filePath : Bytes} {hashes : HashResult}
    (h : fileHashes f filePath = .ok hashes) :
    LF ∉ hashes.md5Digest ∧ LF ∉ hashes.md5SumDigest ∧ LF ∉ hashes.sha1Digest ∧ LF ∉ hashes.sha256Digest ∧
      LF ∉ hashes.sha512Digest := by
  unfold fileHashes at h
  split at h
  case h_5 size md5sum sha1sum sha256sum sha512sum _ =>
    obtain rfl := Except.ok.inj h
    exact ⟨not_mem_hexEncode _, not_mem_hexEncode _, not_mem_hexEncode _, not_mem_hexEncode _,
      not_mem_hexEncode _⟩
  all_goals cases h

theorem tryDeleteFile_cout (f : Fetch) (path : Bytes) (p : Plugin) :
    (p.tryDeleteFile f path).cout = p.cout ∧ (p.tryDeleteFile f path).acquired = p.acquired := by
  unfold Plugin.tryDeleteFile
  split
  · exact ⟨rfl, rfl⟩
  · dsimp only
    split <;> exact ⟨rfl, rfl⟩

theorem saves_iff {f : Fetch} {url filePath : Bytes} :
    downloadAndRename f url (generateUniqueCachePath f.guid) filePath = .ok () ↔ f.Saves url filePath := by
  unfold downloadAndRename Fetch.Saves
  cases f.download url (generateUniqueCachePath f.guid) with
  | done => cases f.rename (generateUniqueCachePath f.guid) filePath <;> simp
  | error value message => simp
  | throws what => simp

/-- A download writes nothing, and has a result when all of it went well. -/
theorem simpleDownload_run (f : Fetch) (url filePath : Bytes) (p : Plugin) : ∃ p' : Plugin,
    p'.cout = p.cout ∧ p'.acquired = p.acquired ∧
    ((∃ hashes, simpleDownload f url filePath p = (.ok hashes.downloadResult, p') ∧
      fileHashes f filePath = .ok hashes ∧
      f.Saves url filePath) ∨
    ∃ e, simpleDownload f url filePath p = (.error e, p') ∧
      ¬ (f.Saves url filePath ∧ ∃ hashes, fileHashes f filePath = .ok hashes)) := by
  obtain ⟨hcout, hacquired⟩ := tryDeleteFile_cout f (generateUniqueCachePath f.guid) p
  unfold simpleDownload
  dsimp only
  cases hsave : downloadAndRename f url (generateUniqueCachePath f.guid) filePath with
  | error e =>
    have hfails : ¬ f.Saves url filePath := fun h => nomatch hsave.symm.trans (saves_iff.2 h)
    refine ⟨p.tryDeleteFile f (generateUniqueCachePath f.guid), hcout, hacquired, .inr ?_⟩
    cases e with
    | std what => exact ⟨_, rfl, fun h => hfails h.1⟩
    | plugin what => exact ⟨_, rfl, fun h => hfails h.1⟩
  | ok _ =>
    have hsaves : f.Saves url filePath := saves_iff.1 hsave
    refine ⟨p, rfl, rfl, ?_⟩
    cases hhashes : fileHashes f filePath with
    | error e => exact .inr ⟨e, rfl, fun h => nomatch h.2⟩
    | ok hashes => exact .inl ⟨hashes, rfl, rfl, hsaves⟩

/-- **One reply to each command to acquire a URI**, whatever the download comes to. -/
theorem workUriAcquire_run (f : Fetch) (url filePath : Bytes) (p : Plugin) : ∃ (r : Reply) (p' : Plugin),
    workUriAcquire f url filePath p = (.ok (), p') ∧ p'.cout = p.cout ++ message LF r.lines ∧
    p'.acquired = p.acquired ∧
    r.uri = url ∧ (r.isDone = true ↔ f.Succeeds url filePath) ∧ (LF ∉ url → LF ∉ filePath → r.Clean) := by
  have hfailure : ∀ p' : Plugin, sendUriFailure url filePath p' =
      (.ok (), { p' with cout := p'.cout ++ message LF (Reply.failure url filePath).lines }) := fun p' =>
    sendAPTMessage_fields .uriFailure (Reply.failure url filePath).fields p'
  have hclean : LF ∉ url → LF ∉ filePath → (Reply.failure url filePath).Clean := fun hurl hpath => by
    simp only [Reply.Clean, Reply.fields, List.forall_mem_cons]
    exact ⟨⟨by decide, hurl⟩, ⟨by decide, hpath⟩, nofun⟩
  -- whatever the exception, the failure is written after the log
  have hcaught :
    ∀ e p', acquireUri f url filePath p = (.error e, p') → p'.cout = p.cout → p'.acquired = p.acquired →
      ∃ p'' : Plugin, workUriAcquire f url filePath p = (.ok (), p'') ∧
        p''.cout = p.cout ++ message LF (Reply.failure url filePath).lines ∧ p''.acquired = p.acquired := by
    intro e p' hacquire hcout hacquired
    obtain ⟨text, hlogged⟩ :
      ∃ text, workUriAcquire f url filePath p = sendUriFailure url filePath (p'.logError text) := by
      rw [workUriAcquire, hacquire]
      cases e with
      | plugin what => exact ⟨_, rfl⟩
      | std what => exact ⟨_, rfl⟩
    refine ⟨_, hlogged.trans (hfailure _), ?_, hacquired⟩
    rw [← hcout]
    rfl
  cases hurl : supportedUrl url with
  | false =>
    obtain ⟨p'', hrun, hcout, hacquired⟩ := hcaught _ p (by rw [acquireUri, hurl]; rfl) rfl rfl
    exact ⟨.failure url filePath, p'', hrun, hcout, hacquired, rfl,
      iff_of_false nofun fun h => absurd (hurl.symm.trans h.1) Bool.false_ne_true, hclean⟩
  | true =>
    obtain ⟨p', hcout, hacquired, ⟨hashes, hrun, hhashes, hsaves⟩ | ⟨e, hrun, hfails⟩⟩ :=
      simpleDownload_run f url filePath p
    · have hdone : workUriAcquire f url filePath p =
          (.ok (), { p' with cout := p'.cout ++ message LF (Reply.done url filePath hashes).lines }) := by
        have hsend := sendAPTMessage_fields .uriDone (Reply.done url filePath hashes).fields p'
        have hacquire : acquireUri f url filePath p =
            (.ok (), { p' with cout := p'.cout ++ message LF (Reply.done url filePath hashes).lines }) := by
          rw [acquireUri, hurl, hrun]
          exact hsend
        rw [workUriAcquire, hacquire]
      refine ⟨.done url filePath hashes, _, hdone, by rw [hcout], hacquired, rfl,
        iff_of_true rfl ⟨hurl, hsaves, hashes, hhashes⟩, fun hlf hpath => ?_⟩
      obtain ⟨h1, h2, h3, h4, h5⟩ := fileHashes_clean hhashes
      simp only [Reply.Clean, Reply.fields, List.forall_mem_cons]
      exact ⟨⟨by decide, hlf⟩, ⟨by decide, not_mem_toDecimal _⟩, ⟨by decide, hpath⟩, ⟨by decide, h1⟩,
        ⟨by decide, h2⟩, ⟨by decide, h3⟩, ⟨by decide, h4⟩, ⟨by decide, h5⟩, nofun⟩
    · obtain ⟨p'', hrun', hcout', hacquired'⟩ :=
        hcaught e p' (by rw [acquireUri, hurl, hrun]; rfl) hcout hacquired
      exact ⟨.failure url filePath, p'', hrun', hcout', hacquired', rfl,
        iff_of_false nofun fun h => hfails h.2, hclean⟩

/-! ## The work loop -/

section

variable {fetches : Nat → Fetch} {cin rest : Bytes} {command : APTCommand} {p : Plugin}

theorem workLoopCommands_eof (h : receiveAPTMessage cin = (command, rest)) (heof : command.eof = true) :
    workLoopCommands fetches cin p = (.ok (), p) := by
  rw [workLoopCommands]
  split
  next heq =>
  obtain ⟨rfl, rfl⟩ := Prod.mk.inj (heq.symm.trans h)
  rw [dif_pos heof]

theorem workLoopCommands_acquire (h : receiveAPTMessage cin = (command, rest)) (heof : command.eof = false)
    (hcode : command.code = ascii "600") {p' : Plugin} (hrun : workUriAcquire (fetches p.acquired)
      (command.header (ascii "URI")) (command.header (ascii "Filename"))
      { p with acquired := p.acquired + 1 } = (.ok (), p')) :
    workLoopCommands fetches cin p = workLoopCommands fetches rest p' := by
  rw [workLoopCommands]
  split
  next heq =>
  obtain ⟨rfl, rfl⟩ := Prod.mk.inj (heq.symm.trans h)
  rw [dif_neg (by simp [heof]), if_pos hcode, hrun]

theorem workLoopCommands_other (h : receiveAPTMessage cin = (command, rest)) (heof : command.eof = false)
    (hcode : command.code ≠ ascii "600") :
    workLoopCommands fetches cin p = workLoopCommands fetches rest p := by
  rw [workLoopCommands]
  split
  next heq =>
  obtain ⟨rfl, rfl⟩ := Prod.mk.inj (heq.symm.trans h)
  rw [dif_neg (by simp [heof]), if_neg hcode]

end

theorem workLoopCommands_run (fetches : Nat → Fetch) (cin : Bytes) (p : Plugin) :
    ∃ (replies : List Reply) (p' : Plugin),
    workLoopCommands fetches cin p = (.ok (), p') ∧
    p'.cout = p.cout ++ (replies.map Reply.lines).flatMap (message LF) ∧
    Answered fetches p.acquired (paragraphs LF cin) replies ∧ ∀ r ∈ replies, r.Clean := by
  induction hn : cin.length using Nat.strongRecOn generalizing cin p with
  | ind n ih =>
  rcases receiveAPTMessage_paragraph cin with ⟨heof, hnone⟩ |
    ⟨line, lines, command, rest, hreceived, hlt, hparagraph, heof, hheader, hcode⟩
  · rw [hnone]
    exact ⟨[], p, workLoopCommands_eof rfl heof, by simp, .nil, nofun⟩
  have hacquire : command.code = ascii "600" ↔ IsAcquire (line :: lines) := hcode _ (by decide)
  rw [hparagraph]
  by_cases h600 : command.code = ascii "600"
  · obtain ⟨r, p₁, hrun, hcout, hacquired, huri, hdone, hclean⟩ := workUriAcquire_run (fetches p.acquired)
      (command.header (ascii "URI")) (command.header (ascii "Filename")) { p with acquired := p.acquired + 1 }
    obtain ⟨replies, p', hloop, hcout', hanswered, hcleans⟩ := ih rest.length (hn ▸ hlt) rest p₁ rfl
    rw [hacquired] at hanswered
    refine ⟨r :: replies, p', (workLoopCommands_acquire hreceived heof h600 hrun).trans hloop, ?_, ?_, ?_⟩
    · rw [hcout', hcout, List.map_cons, List.flatMap_cons, List.append_assoc]
    · refine .acquire (hacquire.1 h600) ?_ ⟨_, hheader _, ?_⟩ hanswered
      · rw [huri]
        exact hheader _
      · rw [huri]
        exact hdone
    · exact List.forall_mem_cons.2 ⟨hclean (hheader _).not_mem (hheader _).not_mem, hcleans⟩
  · obtain ⟨replies, p', hloop, hcout, hanswered, hcleans⟩ := ih rest.length (hn ▸ hlt) rest p rfl
    exact ⟨replies, p', (workLoopCommands_other hreceived heof h600).trans hloop, hcout,
      .other (fun h => h600 (hacquire.2 h)) hanswered, hcleans⟩

/-- **What the plugin writes**: the capabilities, and then for each command to acquire a
URI, in order, one message with that URI, a 201 if the download succeeds and a 400 if
not. Whatever the values received, its text splits at the empty lines into these. -/
theorem one_reply_for_each_acquire (fetches : Nat → Fetch) (cin : Bytes) :
    ∃ (replies : List Reply) (p : Plugin),
    workLoop fetches cin {} = (.ok (), p) ∧ Answered fetches 0 (paragraphs LF cin) replies ∧
    p.cout = (messageLines .capabilities capabilities :: replies.map Reply.lines).flatMap (message LF) ∧
    paragraphs LF p.cout = messageLines .capabilities capabilities :: replies.map Reply.lines := by
  have hsend := sendAPTMessage_fields .capabilities capabilities {}
  obtain ⟨replies, p, hloop, hcout, hanswered, hclean⟩ := workLoopCommands_run fetches cin
    { cout := [] ++ message LF (messageLines .capabilities capabilities) }
  have htext : p.cout =
      (messageLines .capabilities capabilities :: replies.map Reply.lines).flatMap (message LF) := hcout
  refine ⟨replies, p, ?_, hanswered, htext, ?_⟩
  · rw [workLoop, hsend]
    exact hloop
  · rw [htext]
    refine Paragraphs.paragraphs_messages
      (List.forall_mem_cons.2 ⟨messageLines_lines (by decide), fun m hm => ?_⟩)
    obtain ⟨r, hr, rfl⟩ := List.mem_map.1 hm
    exact messageLines_lines (hclean r hr)

end DoClient.Apt
