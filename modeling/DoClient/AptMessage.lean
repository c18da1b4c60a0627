/-
The messages of the APT method interface as the plugin writes and reads them
(`plugins/linux-apt/main.cpp`): a status line, header lines, an empty line. A
message it writes is one paragraph of its output; a command it reads is one
paragraph of its input, which need not be well formed.
-/
import DoClient.Bytes
import DoClient.Lib.Paragraphs
import DoClient.Lib.Pattern

namespace DoClient.Apt

open Pattern (Piece fullMatch)
open Paragraphs (sections paragraphs message)

/-- The exceptions that end a download: `DOPluginException`, which is no
`std::exception`, and those that are. -/
inductive Exception
  | plugin (what : Bytes)
  | std (what : Bytes)
  deriving DecidableEq, Repr

/-- `strutil::FormatString` of a text put together: what the buffer holds of it. -/
def formatString (text : Bytes) : Bytes := text.take 1023

/-! ## Messages to APT -/

inductive APTMsgCode
  | capabilities | status | uriStart | uriDone | uriFailure | uriAcquire | configuration
  deriving DecidableEq, Repr

def APTMsgCode.value : APTMsgCode → Nat
  | capabilities => 100
  | status => 102
  | uriStart => 200
  | uriDone => 201
  | uriFailure => 400
  | uriAcquire => 600
  | configuration => 601

/-- `g_APTMsgStrings`. -/
def APTMsgCode.string : APTMsgCode → Bytes
  | capabilities => ascii "Capabilities"
  | status => ascii "Status"
  | uriStart => ascii "URI Start"
  | uriDone => ascii "URI Done"
  | uriFailure => ascii "URI Failure"
  | uriAcquire => ascii "URI Acquire"
  | configuration => ascii "Configuration"

/-- The header lines of a message: keys and values by turns. -/
def headerLines : List Bytes → Bytes
  | key :: value :: keyValues => key ++ ascii ": " ++ value ++ LF :: headerLines keyValues
  | _ => []

/-- `ConstructAPTMessage`. -/
def constructAPTMessage (code : APTMsgCode) (keyValues : List Bytes) : Except Exception Bytes :=
  if keyValues.length % 2 ≠ 0 then
    .error (.plugin (formatString
      (ascii "Unexpected number of keyValues for APT msg: " ++ toDecimal keyValues.length)))
  else .ok (toDecimal code.value ++ ascii " " ++ code.string ++ LF :: headerLines keyValues ++ [LF])

/-- The lines of a message with these fields. -/
def messageLines (code : APTMsgCode) (fields : List (Bytes × Bytes)) : List Bytes :=
  (toDecimal code.value ++ ascii " " ++ code.string) :: fields.map fun field =>
    field.1 ++ ascii ": " ++ field.2

theorem constructAPTMessage_fields (code : APTMsgCode) (fields : List (Bytes × Bytes)) :
    constructAPTMessage code (fields.flatMap fun field => [field.1, field.2]) =
      .ok (message LF (messageLines code fields)) := by
  have hlength : (fields.flatMap fun field => [field.1, field.2]).length = 2 * fields.length := by
    induction fields with
    | nil => rfl
    | cons field fields ih => simp [ih]; omega
  have hlines : headerLines (fields.flatMap fun field => [field.1, field.2]) =
      (fields.map fun field => field.1 ++ ascii ": " ++ field.2).flatMap (· ++ [LF]) := by
    clear hlength
    induction fields with
    | nil => rfl
    | cons field fields ih =>
      simp only [List.flatMap_cons, List.cons_append, List.nil_append, headerLines, ih, List.map_cons,
        List.append_assoc]
  rw [constructAPTMessage, if_neg (by omega), hlines]
  simp [message, messageLines]

/-- Fields without a line end, written, are lines that are not empty. -/
theorem messageLines_lines {code : APTMsgCode} {fields : List (Bytes × Bytes)}
    (h : ∀ field ∈ fields, LF ∉ field.1 ∧ LF ∉ field.2) :
    messageLines code fields ≠ [] ∧ ∀ l ∈ messageLines code fields, l ≠ [] ∧ LF ∉ l := by
  refine ⟨List.cons_ne_nil _ _, List.forall_mem_cons.2 ⟨?_, fun l hl => ?_⟩⟩
  · cases code <;> exact ⟨by decide, by decide⟩
  · obtain ⟨field, hfield, rfl⟩ := List.mem_map.1 hl
    obtain ⟨hkey, hvalue⟩ := h field hfield
    have hcolon : LF ∉ ascii ": " := by decide
    refine ⟨by simp [ascii], ?_⟩
    simp [hkey, hvalue, hcolon]

/-! ## Commands from APT -/

/-- `std::getline`: a line, and what is left of the input. -/
def getline (cin : Bytes) : Option (Bytes × Bytes) :=
  if cin.isEmpty then none else some (cin.takeWhile (· != LF), (cin.dropWhile (· != LF)).tail)

theorem getline_some {cin line rest : Bytes} (h : getline cin = some (line, rest)) :
    rest.length < cin.length ∧ LF ∉ line ∧ ∀ before : List Bytes,
      sections List.isEmpty (before ++ cin.splitOn LF) =
      sections List.isEmpty (before ++ line :: rest.splitOn LF) := by
  unfold getline at h
  split at h
  · cases h
  next hne =>
  obtain ⟨rfl, rfl⟩ := Prod.mk.inj (Option.some.inj h)
  refine ⟨?_, fun hm => by simpa using List.mem_takeWhile_imp hm, Paragraphs.sections_firstLine⟩
  have hlength := List.length_dropWhile_le (· != LF) cin
  have hpos : 0 < cin.length := List.length_pos_iff.2 (by simpa using hne)
  rw [List.length_tail]
  omega

/-- The class `\s`, in the "C" locale. -/
def isspace (c : UInt8) : Bool := c == 32 || 9 ≤ c && c ≤ 13

/-- A dot: everything but a line end. -/
def isDot (c : UInt8) : Bool := c != LF && c != CR

/-- The class of a header's name, `[a-zA-Z\-]`. -/
def isKeyCharacter (c : UInt8) : Bool := isalpha c || c == 45

theorem isKeyCharacter_of_isspace {c : UInt8} (h : isspace c = true) : isKeyCharacter c = false := by
  simp only [isspace, Bool.or_eq_true, Bool.and_eq_true, beq_iff_eq, decide_eq_true_eq, UInt8.le_iff_toNat_le,
    ← UInt8.toNat_inj, UInt8.reduceToNat] at h
  simp only [isKeyCharacter, isalpha, Bool.or_eq_false_iff, Bool.and_eq_false_iff, decide_eq_false_iff_not,
    beq_eq_false_iff_ne, UInt8.le_iff_toNat_le, ne_eq, ← UInt8.toNat_inj, UInt8.reduceToNat]
  omega

/-- `(\d+) (.*)$`. -/
def rexCommand : List (Piece UInt8) := [.group isdigit, .one (· == 32), .groupStar isDot]

/-- `([a-zA-Z\-]+)\s*:\s*(.*)`. -/
def rexHeader : List (Piece UInt8) :=
  [.group isKeyCharacter, .star isspace, .one (· == 58), .star isspace, .groupStar isDot]

/-- A line is a command: its code, a blank and its description, up to a NUL. -/
def IsCommand (line code description : Bytes) : Prop :=
  cstr line = code ++ 32 :: description ∧ code ≠ [] ∧ (∀ c ∈ code, isdigit c = true) ∧
    ∀ c ∈ description, isDot c = true

/-- A line is a header: its name, a colon and its value, white space around the colon left out. -/
def IsHeader (line name value : Bytes) : Prop := ∃ ws ws' : Bytes,
  cstr line = name ++ (ws ++ 58 :: (ws' ++ value)) ∧ name ≠ [] ∧ (∀ c ∈ name, isKeyCharacter c = true) ∧
  (∀ c ∈ ws, isspace c = true) ∧ (∀ c ∈ ws', isspace c = true) ∧ (∀ c ∈ value, isDot c = true) ∧
  ∀ c ∈ value.head?, isspace c = false

theorem rexCommand_iff {line : Bytes} {gs : List Bytes} :
    fullMatch rexCommand (cstr line) = some gs ↔ ∃ code description, gs = [code, description] ∧
    IsCommand line code description := by
  refine ⟨fun h => ?_, ?_⟩
  · obtain ⟨code, -, -, hline, hne, hcode,
      ⟨_, -, rfl, hblank, description, -, -, rfl, hdot, ⟨rfl, rfl⟩, rfl⟩, rfl⟩ :=
      Pattern.matches_of_fullMatch h
    rw [List.append_nil, beq_iff_eq.1 hblank] at hline
    exact ⟨code, description, rfl, hline, hne, hcode, hdot⟩
  · rintro ⟨code, description, rfl, hline, hne, hcode, hdot⟩
    rw [hline]
    refine Pattern.fullMatch_group hne hcode (by rintro _ ⟨⟩; decide) ?_
    rw [Pattern.fullMatch_one (by decide)]
    have hend : fullMatch ([] : List (Piece UInt8)) [] = some [] := rfl
    have h := Pattern.fullMatch_groupStar hdot (by simp) hend
    rwa [List.append_nil] at h

theorem rexHeader_iff {line : Bytes} {gs : List Bytes} :
    fullMatch rexHeader (cstr line) = some gs ↔ ∃ name value, gs = [name, value] ∧
    IsHeader line name value := by
  have hmatch : ∀ {name value : Bytes}, IsHeader line name value →
    fullMatch rexHeader (cstr line) = some [name, value] := by
    rintro name value ⟨ws, ws', hline, hne, hname, hws, hws', hvalue, hhead⟩
    rw [hline]
    refine Pattern.fullMatch_group hne hname ?_ (Pattern.fullMatch_star hws (by rintro _ ⟨⟩; decide) ?_)
    · cases ws with
      | nil => rintro _ ⟨⟩; decide
      | cons c ws =>
        rintro _ ⟨⟩
        exact isKeyCharacter_of_isspace (hws c List.mem_cons_self)
    rw [Pattern.fullMatch_one (by decide)]
    refine Pattern.fullMatch_star hws' hhead ?_
    have hend : fullMatch ([] : List (Piece UInt8)) [] = some [] := rfl
    have h := Pattern.fullMatch_groupStar hvalue (by simp) hend
    rwa [List.append_nil] at h
  refine ⟨fun h => ?_, fun ⟨name, value, hgs, hheader⟩ => hgs ▸ hmatch hheader⟩
  obtain ⟨name, -, -, hline, hne, hname,
    ⟨ws, -, rfl, hws, _, -, rfl, hcolon, ws', -, rfl, hws', rest, -, -, rfl, hrest,
    ⟨rfl, rfl⟩, rfl⟩, rfl⟩ := Pattern.matches_of_fullMatch h
  rw [List.append_nil, beq_iff_eq.1 hcolon] at hline
  -- the blanks a value could begin with go to the colon
  have hheader : IsHeader line name (rest.dropWhile isspace) := by
    refine ⟨ws, ws' ++ rest.takeWhile isspace, ?_, hne, hname, hws, ?_, ?_, ?_⟩
    · rw [List.append_assoc, List.takeWhile_append_dropWhile, hline]
    · intro c hc
      rcases List.mem_append.1 hc with hc | hc
      exacts [hws' c hc, List.mem_takeWhile_imp hc]
    · exact fun c hc => hrest c ((List.dropWhile_suffix _).mem hc)
    · intro c hc
      have hhead := List.head?_dropWhile_not isspace rest
      rw [Option.mem_def.1 hc] at hhead
      simpa using hhead
  exact ⟨name, _, Option.some.inj (h.symm.trans (hmatch hheader)), hheader⟩

/-- What the header lines say of a name: the last of its lines, or nothing. -/
def HeaderIs (lines : List Bytes) (name value : Bytes) : Prop :=
  (∃ before line after, lines = before ++ line :: after ∧ IsHeader line name value ∧
    ∀ l ∈ after, ∀ v, ¬ IsHeader l name v) ∨
  (∀ l ∈ lines, ∀ v, ¬ IsHeader l name v) ∧ value = []

/-- `APTCommand`. -/
structure APTCommand where
  eof : Bool := false
  code : Bytes := []
  codeDescription : Bytes := []
  headers : Bytes → Option Bytes := fun _ => none

/-- A header line is taken in. -/
def noteHeader (headers : Bytes → Option Bytes) (line : Bytes) : Bytes → Option Bytes :=
  match fullMatch rexHeader (cstr line) with
  | some [key, value] => Function.update headers key (some value)
  | _ => headers

/-- The lines until one is not empty, or the input ends. -/
def receiveFirstLine (cin : Bytes) : Option (Bytes × Bytes) :=
  match _h : getline cin with
  | none => none
  | some (line, rest) => if line.isEmpty || line == [LF] then receiveFirstLine rest else some (line, rest)
termination_by cin.length
decreasing_by exact (getline_some _h).1

/-- The header lines, until one is empty or the input ends. -/
def receiveHeaders (cin : Bytes) (headers : Bytes → Option Bytes) : (Bytes → Option Bytes) × Bytes :=
  match _h : getline cin with
  | none => (headers, cin)
  | some (line, rest) =>
    if !line.isEmpty && line != [LF] then receiveHeaders rest (noteHeader headers line) else (headers, rest)
termination_by cin.length
decreasing_by exact (getline_some _h).1

/-- The code and the description of a command line, if it is one. -/
def readCommand (line : Bytes) : APTCommand :=
  match fullMatch rexCommand (cstr line) with
  | some [code, codeDescription] => { code, codeDescription }
  | _ => {}

/-- `ReceiveAPTMessage`, and what is left of the input. -/
def receiveAPTMessage (cin : Bytes) : APTCommand × Bytes :=
  match receiveFirstLine cin with
  | none => ({ eof := true }, [])
  | some (line, rest) =>
    let command := readCommand line
    let (headers, rest) := receiveHeaders rest command.headers
    ({ command with headers }, rest)

/-- `command.headers[name]`. -/
def APTCommand.header (command : APTCommand) (name : Bytes) : Bytes := (command.headers name).getD []

theorem noteHeader_apply (headers : Bytes → Option Bytes) (line name : Bytes) :
    (∃ value, IsHeader line name value ∧ noteHeader headers line name = some value) ∨
    (∀ value, ¬ IsHeader line name value) ∧ noteHeader headers line name = headers name := by
  cases hmatch : fullMatch rexHeader (cstr line) with
  | none =>
    refine .inr ⟨fun v hv => ?_, by rw [noteHeader, hmatch]⟩
    exact nomatch hmatch.symm.trans (rexHeader_iff.2 ⟨name, v, rfl, hv⟩)
  | some gs =>
    obtain ⟨key, value, rfl, hheader⟩ := rexHeader_iff.1 hmatch
    have hnoted : noteHeader headers line = Function.update headers key (some value) := by
      rw [noteHeader, hmatch]
    rw [hnoted]
    by_cases hname : name = key
    · subst hname
      exact .inl ⟨value, hheader, Function.update_self ..⟩
    · refine .inr ⟨fun v hv => hname ?_, Function.update_of_ne hname ..⟩
      have hsame := hmatch.symm.trans (rexHeader_iff.2 ⟨name, v, rfl, hv⟩)
      simpa using (List.cons.inj (Option.some.inj hsame)).1.symm

/-- The headers taken in line by line are those of the lines. -/
theorem headerIs_lines (lines : List Bytes) (name : Bytes) :
    HeaderIs lines name ((lines.foldl noteHeader (fun _ => none) name).getD []) := by
  induction lines using List.reverseRecOn with
  | nil => exact .inr ⟨nofun, rfl⟩
  | append_singleton lines line ih =>
    rw [List.foldl_append, List.foldl_cons, List.foldl_nil]
    rcases noteHeader_apply (lines.foldl noteHeader fun _ => none) line name
      with ⟨value, hheader, hvalue⟩ | ⟨hno, hsame⟩
    · rw [hvalue]
      exact .inl ⟨lines, line, [], rfl, hheader, nofun⟩
    · rw [hsame]
      rcases ih with ⟨before, l, after, hlines, hheader, hafter⟩ | ⟨hnone, hempty⟩
      · left
        refine ⟨before, l, after ++ [line], by simp [hlines], hheader, fun l' hl' => ?_⟩
        rcases List.mem_append.1 hl' with hl' | hl'
        · exact hafter l' hl'
        · exact List.mem_singleton.1 hl' ▸ hno
      · right
        refine ⟨fun l' hl' => ?_, hempty⟩
        rcases List.mem_append.1 hl' with hl' | hl'
        · exact hnone l' hl'
        · exact List.mem_singleton.1 hl' ▸ hno

/-- The first line of the next paragraph, if there is one. -/
theorem receiveFirstLine_paragraphs (cin : Bytes) :
    (receiveFirstLine cin = none ∧ paragraphs LF cin = []) ∨
    ∃ line rest, receiveFirstLine cin = some (line, rest) ∧ rest.length < cin.length ∧ line ≠ [] ∧
      paragraphs LF cin = sections List.isEmpty (line :: rest.splitOn LF) := by
  fun_induction receiveFirstLine cin with
  | case1 cin h =>
    have hnil : cin = [] := by
      unfold getline at h
      simpa using h
    rw [hnil]
    exact .inl ⟨rfl, Paragraphs.paragraphs_nil⟩
  | case2 cin line rest h hblank ih =>
    obtain ⟨hlt, hline, hsections⟩ := getline_some h
    have hempty : line.isEmpty = true := by
      rcases Bool.or_eq_true_iff.1 hblank with hempty | hlf
      · exact hempty
      · simp [beq_iff_eq.1 hlf] at hline
    have hsame : paragraphs LF cin = paragraphs LF rest := by
      have hfirst := hsections []
      rw [List.nil_append, List.nil_append, Paragraphs.sections_cons hempty] at hfirst
      exact hfirst
    rw [hsame]
    rcases ih with hnone | ⟨line', rest', hsome, hlt', hrest⟩
    · exact .inl hnone
    · exact .inr ⟨line', rest', hsome, by omega, hrest⟩
  | case3 cin line rest h hblank =>
    obtain ⟨hlt, -, hsections⟩ := getline_some h
    have hne : line ≠ [] := fun hnil => hblank (by simp [hnil])
    exact .inr ⟨line, rest, rfl, hlt, hne, hsections []⟩

/-- The header lines are the rest of the paragraph. -/
theorem receiveHeaders_paragraphs (cin : Bytes) (headers : Bytes → Option Bytes) : ∃ lines rest,
    receiveHeaders cin headers = (lines.foldl noteHeader headers, rest) ∧ rest.length ≤ cin.length ∧
    ∀ before : List Bytes, before ≠ [] → (∀ l ∈ before, l ≠ []) →
      sections List.isEmpty (before ++ cin.splitOn LF) = (before ++ lines) :: paragraphs LF rest := by
  fun_induction receiveHeaders cin headers with
  | case1 cin headers h =>
    have hnil : cin = [] := by
      unfold getline at h
      simpa using h
    refine ⟨[], cin, rfl, Nat.le_refl _, fun before hne hlines => ?_⟩
    rw [hnil, List.splitOn_nil, Paragraphs.sections_concat rfl, List.append_nil, Paragraphs.paragraphs_nil,
      Paragraphs.sections_run hne fun l hl => by simpa using hlines l hl]
  | case2 cin headers line rest h hgo ih =>
    obtain ⟨hlt, -, hsections⟩ := getline_some h
    obtain ⟨lines, rest', hrun, hle, hparagraph⟩ := ih
    have hline : line ≠ [] := fun hnil => by simp [hnil] at hgo
    refine ⟨line :: lines, rest', hrun, by omega, fun before hne hlines => ?_⟩
    have hmore := hparagraph (before ++ [line]) (by simp) fun l hl => by
      rcases List.mem_append.1 hl with hl | hl
      · exact hlines l hl
      · exact List.mem_singleton.1 hl ▸ hline
    simp only [List.append_assoc, List.singleton_append] at hmore
    rw [hsections, hmore]
  | case3 cin headers line rest h hstop =>
    obtain ⟨hlt, hlf, hsections⟩ := getline_some h
    have hempty : line.isEmpty = true := by
      by_contra hne
      have hsome : line ≠ [LF] := fun heq => hlf (by simp [heq])
      exact hstop (by simp [hne, hsome])
    refine ⟨[], rest, rfl, by omega, fun before hne hlines => ?_⟩
    rw [hsections, Paragraphs.sections_append hempty, List.append_nil,
      Paragraphs.sections_run hne fun l hl => by simpa using hlines l hl]
    rfl

theorem readCommand_code {line code : Bytes} (hne : code ≠ []) :
    (readCommand line).code = code ↔ ∃ description, IsCommand line code description := by
  cases hmatch : fullMatch rexCommand (cstr line) with
  | none =>
    have hread : readCommand line = {} := by rw [readCommand, hmatch]
    rw [hread]
    refine iff_of_false hne.symm fun ⟨d, hd⟩ => ?_
    exact nomatch hmatch.symm.trans (rexCommand_iff.2 ⟨code, d, rfl, hd⟩)
  | some gs =>
    obtain ⟨code', d', rfl, hcommand⟩ := rexCommand_iff.1 hmatch
    have hread : readCommand line = { code := code', codeDescription := d' } := by rw [readCommand, hmatch]
    rw [hread]
    refine ⟨fun hcode => ⟨d', hcode ▸ hcommand⟩, fun ⟨d, hd⟩ => ?_⟩
    have hsame := hmatch.symm.trans (rexCommand_iff.2 ⟨code, d, rfl, hd⟩)
    exact (List.cons.inj (Option.some.inj hsame)).1

/-- **A command is the next paragraph of the input**, and the rest stays. -/
theorem receiveAPTMessage_paragraph (cin : Bytes) :
    ((receiveAPTMessage cin).1.eof = true ∧ paragraphs LF cin = []) ∨
    ∃ line lines command rest, receiveAPTMessage cin = (command, rest) ∧ rest.length < cin.length ∧
      paragraphs LF cin = (line :: lines) :: paragraphs LF rest ∧ command.eof = false ∧
      (∀ name, HeaderIs lines name (command.header name)) ∧
      ∀ code, code ≠ [] → (command.code = code ↔ ∃ description, IsCommand line code description) := by
  rcases receiveFirstLine_paragraphs cin
    with ⟨hnone, hparagraphs⟩ | ⟨line, rest, hsome, hlt, hline, hparagraphs⟩
  · rw [receiveAPTMessage, hnone]
    exact .inl ⟨rfl, hparagraphs⟩
  obtain ⟨lines, rest', hrun, hle, hrest⟩ := receiveHeaders_paragraphs rest (readCommand line).headers
  have hread : (readCommand line).eof = false ∧ (readCommand line).headers = fun _ => none := by
    unfold readCommand
    split <;> exact ⟨rfl, rfl⟩
  have hfirst := hrest [line] (by simp) (by simpa using hline)
  rw [hread.2] at hrun
  refine .inr ⟨line, lines, { readCommand line with headers := lines.foldl noteHeader fun _ => none },
    rest', ?_,
    by omega, hparagraphs.trans hfirst, hread.1, headerIs_lines lines, fun code hne => readCommand_code hne⟩
  simp only [receiveAPTMessage, hsome, hread.2, hrun]

end DoClient.Apt
