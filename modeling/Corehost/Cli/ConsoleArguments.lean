import Corehost.Cli.CommandLine
import Mathlib.Data.List.TakeWhile

/-!
# Arguments of the host

The model of `console_arguments` (`console_arguments.hpp`): the options of the
host in front of the command line of the client.

* `accepted_iff`: the texts of numbers that are accepted begin with a number;
* `branch_more`, `branch_finished`: what one argument does;
* `ClientLine`, `loop_client`: the command line of the client;
* `console_arguments_iff`: the numbers that are accepted are whole exactly when
  none that is reached has other characters behind a number.
-/

namespace Corehost.CommandLine

/-! ## The model -/

/-- `parse_error`. -/
inductive ParseError
  | invalidHandleValue | duplicateCondrvHandle | duplicateServerHandle | missingServerValue | duplicateSignalHandle
  | missingSignalValue | missingWidthValue | invalidSizeValue | missingHeightValue | missingFeatureValue
  | unsupportedFeatureValue | invalidTextMeasurementValue | missingTextMeasurementValue
deriving DecidableEq, Repr

/-- An exception, or a use of what is not set. -/
inductive Failure
  | parse (e : ParseError)
  | undefined
deriving DecidableEq, Repr

def wide (s : String) : List UInt16 := s.toList.map fun c => .ofNat c.toNat

def handlePrefix : List UInt16 := wide "0x"

/-- What a token is, in the order of the checks. -/
inductive Argument
  | condrvHandle | serverHandle | signalHandle | forceV1 | forceNoHandoff | comServer | filepathLeader | width | height
  | feature | headless | vtMode | inheritCursor | ambiguousIsWide | textMeasurement | clientCommandline | unknown
deriving DecidableEq, Repr

def Argument.ofToken (token : List UInt16) : Argument :=
  if handlePrefix <+: token then .condrvHandle
  else if token = wide "--server" then .serverHandle
  else if token = wide "--signal" then .signalHandle
  else if token = wide "-ForceV1" then .forceV1
  else if token = wide "-ForceNoHandoff" then .forceNoHandoff
  else if token = wide "-Embedding" then .comServer
  else if wide "\\??\\" <+: token then .filepathLeader
  else if token = wide "--width" then .width
  else if token = wide "--height" then .height
  else if token = wide "--feature" then .feature
  else if token = wide "--headless" then .headless
  else if token = wide "--vtmode" then .vtMode
  else if token = wide "--inheritcursor" then .inheritCursor
  else if token = wide "--ambiguousIsWide" then .ambiguousIsWide
  else if token = wide "--textMeasurement" then .textMeasurement
  else if token = wide "--" then .clientCommandline
  else .unknown

inductive TextMeasurementMode
  | console | graphemes | wcswidth
deriving DecidableEq, Repr

/-- `console_arguments`. -/
structure ConsoleArguments where
  clientCommandLine : List UInt16 := []
  originalCommandLine : List UInt16 := []
  textMeasurement : TextMeasurementMode := .console
  forceNoHandoff : Bool := false
  forceV1 : Bool := false
  vtMode : Bool := false
  headless : Bool := false
  inheritCursor : Bool := false
  ambiguousIsWide : Bool := false
  runAsComServer : Bool := false
  width : Nat := 0
  height : Nat := 0
  condrvHandle : Nat := 0
  serverHandle : Nat := 0
  signalHandle : Nat := 0
deriving DecidableEq, Repr

/-- The value of a digit; 36 for what is none. -/
def digitOf (ch : UInt16) : Nat :=
  if 0x30 ≤ ch ∧ ch ≤ 0x39 then ch.toNat - 0x30
  else if 0x61 ≤ ch ∧ ch ≤ 0x7A then ch.toNat - 0x61 + 10
  else if 0x41 ≤ ch ∧ ch ≤ 0x5A then ch.toNat - 0x41 + 10
  else 36

def isDigit (base : Nat) (ch : UInt16) : Bool := digitOf ch < base

def valueOf (base : Nat) (digits : List UInt16) : Nat := digits.foldl (fun v ch => v * base + digitOf ch) 0

/-- `std::from_chars` for a number without a sign: it reads the digits at the
start of the text. -/
def fromChars (base bound : Nat) (text : List UInt16) : Option Nat :=
  if text.takeWhile (isDigit base) = [] then none
  else if valueOf base (text.takeWhile (isDigit base)) < bound then some (valueOf base (text.takeWhile (isDigit base)))
  else none

/-- `std::from_chars` for a `short`. -/
def fromCharsShort (text : List UInt16) : Option Int :=
  match text with
  | 0x2D :: digits => (fromChars 10 0x8001 digits).map fun v : Nat => -(v : Int)
  | _ => (fromChars 10 0x8000 text).map fun v : Nat => (v : Int)

/-- `parse_handle_value`, for a `uintptr_t` of 64 bits. -/
def parseHandleValue (text : List UInt16) : Except Failure Nat :=
  if text.length > 16 then .error (.parse .invalidHandleValue)
  else if ∃ ch ∈ text, ch > 0x7F then .error (.parse .invalidHandleValue)
  else match fromChars 16 (2 ^ 64) text with
    | some value => .ok value
    | none => .error (.parse .invalidHandleValue)

/-- `parse_size_value`. -/
def parseSizeValue (text : List UInt16) : Except Failure Nat :=
  if text.length > 5 then .error (.parse .invalidSizeValue)
  else if ∃ ch ∈ text, ch > 0x7F then .error (.parse .invalidSizeValue)
  else match fromCharsShort text with
    | some value => if value < 0 then .error (.parse .invalidSizeValue) else .ok value.toNat
    | none => .error (.parse .invalidSizeValue)

/-- `parser.next()`. -/
def nextToken (v : View) : Except Failure (List UInt16 × View) :=
  match v.next with
  | some r => .ok r
  | none => .error .undefined

/-- The token behind an option. -/
def optionValue (v : View) (missing : ParseError) : Except Failure (List UInt16 × View) :=
  if v.done then .error (.parse missing) else nextToken v

/-- The value of `--server` and of `--signal`. -/
def handleOption (v : View) (handle : Nat) (duplicate missing : ParseError) : Except Failure (Nat × View) :=
  if handle ≠ 0 then .error (.parse duplicate)
  else do
    let (value, v) ← optionValue v missing
    if handlePrefix <+: value then return (← parseHandleValue (value.drop 2), v)
    else .error (.parse .invalidHandleValue)

/-- The value of `--width` and of `--height`. -/
def sizeOption (v : View) (missing : ParseError) : Except Failure (Nat × View) := do
  let (value, v) ← optionValue v missing
  return (← parseSizeValue value, v)

def featureOption (v : View) : Except Failure View := do
  let (value, v) ← optionValue v .missingFeatureValue
  if value = wide "pty" then return v else .error (.parse .unsupportedFeatureValue)

def textMeasurementOption (v : View) : Except Failure (TextMeasurementMode × View) := do
  let (value, v) ← optionValue v .missingTextMeasurementValue
  if value = wide "graphemes" then return (.graphemes, v)
  else if value = wide "wcswidth" then return (.wcswidth, v)
  else if value = wide "console" then return (.console, v)
  else .error (.parse .invalidTextMeasurementValue)

/-- Whether the loop goes on. -/
inductive Progress
  | more (v : View) (a : ConsoleArguments)
  | finished (a : ConsoleArguments)

/-- The branches of the loop for a token, with the views in front of it and behind it. -/
def branch (v w : View) (a : ConsoleArguments) (token : List UInt16) : Argument → Except Failure Progress
  | .condrvHandle => do
    if a.condrvHandle ≠ 0 then .error (.parse .duplicateCondrvHandle)
    else return .more w { a with condrvHandle := ← parseHandleValue (token.drop 2) }
  | .serverHandle => do
    let (handle, w) ← handleOption w a.serverHandle .duplicateServerHandle .missingServerValue
    return .more w { a with serverHandle := handle }
  | .signalHandle => do
    let (handle, w) ← handleOption w a.signalHandle .duplicateSignalHandle .missingSignalValue
    return .more w { a with signalHandle := handle }
  | .forceV1 => .ok <| .more w { a with forceV1 := true }
  | .forceNoHandoff => .ok <| .more w { a with forceNoHandoff := true }
  | .comServer => .ok <| .more w { a with runAsComServer := true }
  | .filepathLeader => .ok <| .more w a
  | .width => do
    let (size, w) ← sizeOption w .missingWidthValue
    return .more w { a with width := size }
  | .height => do
    let (size, w) ← sizeOption w .missingHeightValue
    return .more w { a with height := size }
  | .feature => do return .more (← featureOption w) a
  | .headless => .ok <| .more w { a with headless := true }
  | .vtMode => .ok <| .more w { a with vtMode := true }
  | .inheritCursor => .ok <| .more w { a with inheritCursor := true }
  | .ambiguousIsWide => .ok <| .more w { a with ambiguousIsWide := true }
  | .textMeasurement => do
    let (mode, w) ← textMeasurementOption w
    return .more w { a with textMeasurement := mode }
  | .clientCommandline => .ok <| .finished { a with clientCommandLine := w.remain }
  | .unknown => .ok <| .finished { a with clientCommandLine := v.remain }

/-- One round of the loop. -/
def step (v : View) (a : ConsoleArguments) : Except Failure Progress := do
  let (token, w) ← nextToken v
  branch v w a token (.ofToken token)

def loop : Nat → View → ConsoleArguments → Except Failure ConsoleArguments
  | 0, v, a => if v.done then .ok a else .error .undefined
  | fuel + 1, v, a =>
    if v.done then .ok a
    else do
      match ← step v a with
      | .more v a => loop fuel v a
      | .finished a => return a

/-- The constructor. -/
def consoleArguments (commandLine : List UInt16) : Except Failure ConsoleArguments := do
  let (_, v) ← nextToken (.ofText commandLine)
  loop commandLine.length v { originalCommandLine := commandLine }

/-! ## Numbers -/

/-- The kinds of numbers among the options. -/
inductive NumberKind
  | handle | size
deriving DecidableEq, Repr

/-- Digits of a number below a bound. -/
structure Digits (base bound : Nat) (digits : List UInt16) : Prop where
  nonempty : digits ≠ []
  digit : ∀ ch ∈ digits, isDigit base ch
  bounded : valueOf base digits < bound

def NumberKind.base : NumberKind → Nat
  | .handle => 16
  | .size => 10

/-- What stands in front of the digits, and the bound for these: `0x` for a
handle, and for a size, which is a `short` and not negative, nothing or a minus. -/
def NumberKind.leads : NumberKind → List (List UInt16 × Nat)
  | .handle => [(handlePrefix, 2 ^ 64)]
  | .size => [([], 0x8000), ([0x2D], 1)]

/-- The longest text that is looked at. -/
def NumberKind.limit : NumberKind → Nat
  | .handle => 18
  | .size => 5

/-- A text that begins with a number, and the characters behind that. -/
def Begins (kind : NumberKind) (text rest : List UInt16) : Prop :=
  ∃ lead ∈ kind.leads, ∃ digits, text = lead.1 ++ digits ++ rest ∧ Digits kind.base lead.2 digits

/-- The whole text is a number. -/
def IsNumber (kind : NumberKind) (text : List UInt16) : Prop := Begins kind text []

/-- A short text that begins with a number and goes on with a character that is no digit, all of it in ASCII. -/
def IsPartial (kind : NumberKind) (text : List UInt16) : Prop :=
  ∃ ch rest, Begins kind text (ch :: rest) ∧ ¬ isDigit kind.base ch ∧ text.length ≤ kind.limit ∧ ∀ c ∈ text, c ≤ 0x7F

/-- The text is accepted. -/
def Accepted : NumberKind → List UInt16 → Prop
  | .handle, text => handlePrefix <+: text ∧ ∃ value, parseHandleValue (text.drop 2) = .ok value
  | .size, text => ∃ value, parseSizeValue text = .ok value

variable {base bound : Nat} {text digits rest : List UInt16}

/-- A text is cut behind its digits in one way. -/
theorem takeWhile_digits (h : ∀ ch ∈ digits, isDigit base ch) (hstop : ∀ ch ∈ rest.head?, ¬ isDigit base ch) :
    (digits ++ rest).takeWhile (isDigit base) = digits := by
  rw [List.takeWhile_append_of_pos h]
  rcases rest with _ | ⟨ch, rest⟩
  · exact List.append_nil _
  · rw [List.takeWhile_cons_of_neg (hstop ch rfl), List.append_nil]

theorem fromChars_some {value : Nat} : fromChars base bound text = some value ↔
    ∃ digits rest, text = digits ++ rest ∧ Digits base bound digits ∧ (∀ ch ∈ rest.head?, ¬ isDigit base ch) ∧
      valueOf base digits = value := by
  constructor
  · intro h
    unfold fromChars at h
    split_ifs at h with hnil hlt
    refine ⟨_, _, (List.takeWhile_append_dropWhile (p := isDigit base)).symm, ⟨hnil, ?_, hlt⟩, ?_, Option.some_inj.mp h⟩
    · exact fun ch hch => List.mem_takeWhile_imp hch
    · intro ch hch
      have := List.head?_dropWhile_not (isDigit base) text
      rw [Option.mem_def.mp hch] at this
      simpa using this
  · rintro ⟨digits, rest, rfl, ⟨hne, hdigit, hlt⟩, hstop, rfl⟩
    rw [fromChars, takeWhile_digits hdigit hstop, if_neg hne, if_pos hlt]

theorem isDigit_minus (base : Nat) (h : base ≤ 36) : ¬ isDigit base 0x2D := by
  simpa [isDigit, digitOf] using h

theorem parseHandleValue_ok : (∃ value, parseHandleValue text = .ok value) ↔
    text.length ≤ 16 ∧ (∀ ch ∈ text, ch ≤ 0x7F) ∧ ∃ value, fromChars 16 (2 ^ 64) text = some value := by
  unfold parseHandleValue
  split_ifs with hlength hascii
  · exact ⟨fun ⟨_, h⟩ => (nomatch h), fun h => absurd h.1 (Nat.not_le_of_lt hlength)⟩
  · obtain ⟨ch, hch, hlt⟩ := hascii
    exact ⟨fun ⟨_, h⟩ => (nomatch h), fun h => absurd (h.2.1 ch hch) (UInt16.not_le.mpr hlt)⟩
  · have hall : ∀ ch ∈ text, ch ≤ 0x7F := fun ch hch => UInt16.not_lt.mp fun hlt => hascii ⟨ch, hch, hlt⟩
    cases fromChars 16 (2 ^ 64) text with
    | none => exact ⟨fun ⟨_, h⟩ => (nomatch h), fun ⟨_, _, _, h⟩ => (nomatch h)⟩
    | some value => exact ⟨fun _ => ⟨Nat.le_of_not_lt hlength, hall, value, rfl⟩, fun _ => ⟨value, rfl⟩⟩

theorem parseSizeValue_ok : (∃ value, parseSizeValue text = .ok value) ↔
    text.length ≤ 5 ∧ (∀ ch ∈ text, ch ≤ 0x7F) ∧ ∃ value, fromCharsShort text = some value ∧ 0 ≤ value := by
  unfold parseSizeValue
  split_ifs with hlength hascii
  · exact ⟨fun ⟨_, h⟩ => (nomatch h), fun h => absurd h.1 (Nat.not_le_of_lt hlength)⟩
  · obtain ⟨ch, hch, hlt⟩ := hascii
    exact ⟨fun ⟨_, h⟩ => (nomatch h), fun h => absurd (h.2.1 ch hch) (UInt16.not_le.mpr hlt)⟩
  · have hall : ∀ ch ∈ text, ch ≤ 0x7F := fun ch hch => UInt16.not_lt.mp fun hlt => hascii ⟨ch, hch, hlt⟩
    cases fromCharsShort text with
    | none => exact ⟨fun ⟨_, h⟩ => (nomatch h), fun ⟨_, _, _, h, _⟩ => (nomatch h)⟩
    | some value =>
      dsimp only
      split_ifs with hneg
      · refine ⟨fun ⟨_, h⟩ => (nomatch h), fun ⟨_, _, w, hw, hpos⟩ => ?_⟩
        rw [Option.some_inj.mp hw] at hneg
        omega
      · exact ⟨fun _ => ⟨Nat.le_of_not_lt hlength, hall, value, rfl, by omega⟩, fun _ => ⟨_, rfl⟩⟩

theorem fromCharsShort_some : (∃ value, fromCharsShort text = some value ∧ 0 ≤ value) ↔
    ∃ rest, Begins .size text rest ∧ ∀ ch ∈ rest.head?, ¬ isDigit 10 ch := by
  constructor
  · rintro ⟨value, h, hpos⟩
    unfold fromCharsShort at h
    split at h
    · obtain ⟨v, hv, hvalue⟩ := Option.map_eq_some_iff.mp h
      obtain ⟨digits, rest, rfl, ⟨hne, hdigit, hlt⟩, hstop, rfl⟩ := fromChars_some.mp hv
      refine ⟨rest, ⟨([0x2D], 1), by simp [NumberKind.leads], digits, rfl, hne, hdigit, ?_⟩, hstop⟩
      dsimp only [NumberKind.base]
      omega
    · obtain ⟨v, hv, hvalue⟩ := Option.map_eq_some_iff.mp h
      obtain ⟨digits, rest, rfl, hdigits, hstop, rfl⟩ := fromChars_some.mp hv
      exact ⟨rest, ⟨([], 0x8000), by simp [NumberKind.leads], digits, rfl, hdigits⟩, hstop⟩
  · rintro ⟨rest, ⟨lead, hlead, digits, rfl, hne, hdigit, hlt⟩, hstop⟩
    obtain rfl | rfl : lead = ([], 0x8000) ∨ lead = ([0x2D], 1) := by simpa [NumberKind.leads] using hlead
    · have hv := fromChars_some.mpr ⟨digits, rest, rfl, ⟨hne, hdigit, hlt⟩, hstop, rfl⟩
      refine ⟨valueOf 10 digits, ?_, Int.natCast_nonneg _⟩
      rcases digits with _ | ⟨ch, digits⟩
      · exact absurd rfl hne
      unfold fromCharsShort
      split
      · rename_i heq
        have hch : ch = 0x2D := (List.cons.inj heq).1
        exact absurd (hch ▸ hdigit ch List.mem_cons_self) (isDigit_minus 10 (by decide))
      · rename_i heq
        exact (congrArg (Option.map fun v : Nat => (v : Int)) hv)
    · have hbound : valueOf 10 digits < 0x8001 := Nat.lt_trans hlt (by decide)
      have hv := fromChars_some.mpr ⟨digits, rest, rfl, ⟨hne, hdigit, hbound⟩, hstop, rfl⟩
      refine ⟨-(valueOf 10 digits : Int), ?_, ?_⟩
      · exact congrArg (Option.map fun v : Nat => -(v : Int)) hv
      · dsimp only [NumberKind.base] at hlt
        omega

/-- What is accepted begins with a number. -/
theorem accepted_iff {kind : NumberKind} : Accepted kind text ↔
    text.length ≤ kind.limit ∧ (∀ ch ∈ text, ch ≤ 0x7F) ∧
      ∃ rest, Begins kind text rest ∧ ∀ ch ∈ rest.head?, ¬ isDigit kind.base ch := by
  cases kind with
  | size => exact parseSizeValue_ok.trans (and_congr Iff.rfl (and_congr Iff.rfl fromCharsShort_some))
  | handle =>
    have hfront : handlePrefix.length = 2 := by decide
    constructor
    · rintro ⟨⟨text, rfl⟩, hok⟩
      obtain ⟨hlength, hascii, v, hv⟩ := parseHandleValue_ok.mp hok
      change text.length ≤ 16 at hlength
      change ∀ ch ∈ text, ch ≤ 0x7F at hascii
      change fromChars 16 (2 ^ 64) text = some v at hv
      obtain ⟨digits, rest, rfl, hdigits, hstop, -⟩ := fromChars_some.mp hv
      refine ⟨?_, ?_, rest, ⟨(handlePrefix, 2 ^ 64), by simp [NumberKind.leads], digits, ?_, hdigits⟩, hstop⟩
      · rw [List.length_append, hfront]
        exact Nat.add_le_add_left hlength 2
      · rw [List.forall_mem_append]
        exact ⟨by simp [handlePrefix, wide], hascii⟩
      · rw [List.append_assoc]
    · rintro ⟨hlength, hascii, rest, ⟨lead, hlead, digits, rfl, hdigits⟩, hstop⟩
      obtain rfl : lead = (handlePrefix, 2 ^ 64) := by simpa [NumberKind.leads] using hlead
      rw [List.append_assoc] at hlength hascii ⊢
      refine ⟨List.prefix_append .., parseHandleValue_ok.mpr ⟨?_, ?_, valueOf 16 digits, ?_⟩⟩
      · rw [List.length_append, hfront] at hlength
        exact Nat.le_of_add_le_add_left hlength
      · exact (List.forall_mem_append.mp hascii).2
      · exact fromChars_some.mpr ⟨digits, rest, rfl, hdigits, hstop, rfl⟩

/-- What begins with a number and goes on with something else is no number. -/
theorem Begins.not_isNumber {kind : NumberKind} {ch : UInt16} (h : Begins kind text (ch :: rest))
    (hch : ¬ isDigit kind.base ch) : ¬ IsNumber kind text := by
  rintro ⟨lead', hlead', digits', htext, hne', hdigit', -⟩
  obtain ⟨lead, hlead, digits, rfl, hne, hdigit, -⟩ := h
  rw [List.append_nil] at htext
  have hsame (heq : digits ++ ch :: rest = digits') : False :=
    hch (hdigit' ch (heq ▸ List.mem_append_right _ List.mem_cons_self))
  have hminus {ds : List UInt16} (hds : ∀ c ∈ ds, isDigit kind.base c) (hpos : ds ≠ []) {s t : List UInt16} (hbase : kind.base ≤ 36)
      (heq : 0x2D :: s = ds ++ t) : False := by
    rcases ds with _ | ⟨c, ds⟩
    · exact hpos rfl
    · rw [List.cons_append] at heq
      exact isDigit_minus _ hbase ((List.cons.inj heq).1 ▸ hds c List.mem_cons_self)
  cases kind with
  | handle =>
    obtain rfl : lead = (handlePrefix, 2 ^ 64) := by simpa [NumberKind.leads] using hlead
    obtain rfl : lead' = (handlePrefix, 2 ^ 64) := by simpa [NumberKind.leads] using hlead'
    rw [List.append_assoc] at htext
    exact hsame (List.append_cancel_left htext)
  | size =>
    have hcases : lead = ([], 0x8000) ∨ lead = ([0x2D], 1) := by simpa [NumberKind.leads] using hlead
    have hcases' : lead' = ([], 0x8000) ∨ lead' = ([0x2D], 1) := by simpa [NumberKind.leads] using hlead'
    rcases hcases with rfl | rfl <;> rcases hcases' with rfl | rfl
    · exact hsame htext
    · exact hminus hdigit hne (by decide) htext.symm
    · exact hminus hdigit' hne' (by decide) (htext.trans (List.append_nil _).symm)
    · exact hsame (List.cons.inj htext).2

/-- A number is accepted only as a whole, unless it is partial. -/
theorem accepted_isNumber_iff {kind : NumberKind} :
    (Accepted kind text → IsNumber kind text) ↔ ¬ IsPartial kind text := by
  rw [accepted_iff]
  constructor
  · rintro h ⟨ch, rest, hbegins, hch, hlength, hascii⟩
    refine hbegins.not_isNumber hch (h ⟨hlength, hascii, ch :: rest, hbegins, fun c hc => ?_⟩)
    rwa [← Option.some_inj.mp hc]
  · rintro h ⟨hlength, hascii, rest, hbegins, hstop⟩
    rcases rest with _ | ⟨ch, rest⟩
    · exact hbegins
    · exact absurd ⟨ch, rest, hbegins, hstop ch rfl, hlength, hascii⟩ h

/-! ## One round -/

theorem bind_eq_ok {α β : Type} {x : Except Failure α} {f : α → Except Failure β} {b : β} (h : x >>= f = .ok b) :
    ∃ a, x = .ok a ∧ f a = .ok b := by
  cases x with
  | error e => nomatch h
  | ok a => exact ⟨a, rfl, h⟩

variable {v w : View} {a a' : ConsoleArguments} {token value : List UInt16}

theorem nextToken_ok : nextToken v = .ok (token, w) ↔ v.next = some (token, w) := by
  unfold nextToken
  cases v.next with
  | none => exact ⟨nofun, nofun⟩
  | some r => exact ⟨fun h => congrArg some (Except.ok.inj h), fun h => congrArg Except.ok (Option.some_inj.mp h)⟩

/-- An option that has a value. -/
def Argument.valueKind : Argument → Option (Option NumberKind)
  | .serverHandle | .signalHandle => some (some .handle)
  | .width | .height => some (some .size)
  | .feature | .textMeasurement => some none
  | _ => none

/-- The token behind an option, and what is behind that. -/
def Value (w : View) (value : List UInt16) (v' : View) : Prop := ¬ w.done ∧ w.next = some (value, v')

theorem optionValue_ok {missing : ParseError} {v' : View} : optionValue w missing = .ok (value, v') ↔ Value w value v' := by
  unfold optionValue Value
  split_ifs with hdone
  · exact ⟨nofun, fun h => absurd hdone h.1⟩
  · exact nextToken_ok.trans ⟨fun h => ⟨hdone, h⟩, fun h => h.2⟩

theorem handleOption_ok {handle n : Nat} {duplicate missing : ParseError} {v' : View} :
    handleOption w handle duplicate missing = .ok (n, v') ↔
      handle = 0 ∧ ∃ value, Value w value v' ∧ handlePrefix <+: value ∧ parseHandleValue (value.drop 2) = .ok n := by
  unfold handleOption
  split_ifs with hzero
  · exact ⟨nofun, fun h => absurd h.1 hzero⟩
  · constructor
    · intro h
      obtain ⟨⟨value, w'⟩, hvalue, h⟩ := bind_eq_ok h
      dsimp only at h
      split_ifs at h with hfront
      obtain ⟨m, hm, h⟩ := bind_eq_ok h
      obtain ⟨rfl, rfl⟩ := Prod.mk.inj (Except.ok.inj h)
      exact ⟨not_not.mp hzero, value, optionValue_ok.mp hvalue, hfront, hm⟩
    · rintro ⟨-, value, hvalue, hfront, hn⟩
      rw [optionValue_ok.mpr hvalue]
      change (if handlePrefix <+: value then parseHandleValue (value.drop 2) >>= _ else _) = _
      rw [if_pos hfront, hn]
      rfl

theorem sizeOption_ok {n : Nat} {missing : ParseError} {v' : View} : sizeOption w missing = .ok (n, v') ↔
    ∃ value, Value w value v' ∧ parseSizeValue value = .ok n := by
  constructor
  · intro h
    obtain ⟨⟨value, w'⟩, hvalue, h⟩ := bind_eq_ok h
    obtain ⟨m, hm, h⟩ := bind_eq_ok h
    obtain ⟨rfl, rfl⟩ := Prod.mk.inj (Except.ok.inj h)
    exact ⟨value, optionValue_ok.mp hvalue, hm⟩
  · rintro ⟨value, hvalue, hn⟩
    rw [sizeOption, optionValue_ok.mpr hvalue]
    change parseSizeValue value >>= _ = _
    rw [hn]
    rfl

theorem featureOption_ok {v' : View} (h : featureOption w = .ok v') : ∃ value, Value w value v' := by
  obtain ⟨⟨value, w'⟩, hvalue, h⟩ := bind_eq_ok h
  dsimp only at h
  split_ifs at h
  obtain rfl := Except.ok.inj h
  exact ⟨value, optionValue_ok.mp hvalue⟩

theorem textMeasurementOption_ok {v' : View} {mode : TextMeasurementMode} (h : textMeasurementOption w = .ok (mode, v')) :
    ∃ value, Value w value v' := by
  obtain ⟨⟨value, w'⟩, hvalue, h⟩ := bind_eq_ok h
  dsimp only at h
  have hw : w' = v' := by
    split_ifs at h <;> exact (Prod.mk.inj (Except.ok.inj h)).2
  exact ⟨value, hw ▸ optionValue_ok.mp hvalue⟩

theorem step_eq (h : v.next = some (token, w)) : step v a = branch v w a token (.ofToken token) := by
  rw [step, nextToken_ok.mpr h]
  rfl

theorem step_next {r : Progress} (h : step v a = .ok r) :
    ∃ token w, v.next = some (token, w) ∧ branch v w a token (.ofToken token) = .ok r := by
  obtain ⟨⟨token, w⟩, hnext, h⟩ := bind_eq_ok h
  exact ⟨token, w, nextToken_ok.mp hnext, h⟩

/-- The options. -/
def Argument.known : Argument → Bool
  | .clientCommandline | .unknown => false
  | _ => true

/-- An option takes its value, and leaves the command line of the client as it is. -/
theorem branch_more {arg : Argument} {v' : View} (h : branch v w a token arg = .ok (.more v' a')) :
    arg.known ∧ a'.clientCommandLine = a.clientCommandLine ∧
      if arg.valueKind.isSome then ∃ value, Value w value v' else v' = w := by
  have hmore {x y : View} {b c : ConsoleArguments} (h : (Except.ok (.more x b) : Except Failure Progress) = .ok (.more y c)) :
      x = y ∧ b = c := Progress.more.inj (Except.ok.inj h)
  cases arg with
  | clientCommandline | unknown => cases h
  | condrvHandle =>
    unfold branch at h
    split_ifs at h
    obtain ⟨n, -, h⟩ := bind_eq_ok h
    obtain ⟨rfl, rfl⟩ := hmore h
    exact ⟨rfl, rfl, rfl⟩
  | serverHandle | signalHandle =>
    obtain ⟨⟨n, x⟩, hn, h⟩ := bind_eq_ok h
    obtain ⟨rfl, rfl⟩ := hmore h
    obtain ⟨-, value, hvalue, -⟩ := handleOption_ok.mp hn
    exact ⟨rfl, rfl, value, hvalue⟩
  | width | height =>
    obtain ⟨⟨n, x⟩, hn, h⟩ := bind_eq_ok h
    obtain ⟨rfl, rfl⟩ := hmore h
    obtain ⟨value, hvalue, -⟩ := sizeOption_ok.mp hn
    exact ⟨rfl, rfl, value, hvalue⟩
  | feature =>
    obtain ⟨x, hx, h⟩ := bind_eq_ok h
    obtain ⟨rfl, rfl⟩ := hmore h
    exact ⟨rfl, rfl, featureOption_ok hx⟩
  | textMeasurement =>
    obtain ⟨⟨mode, x⟩, hx, h⟩ := bind_eq_ok h
    obtain ⟨rfl, rfl⟩ := hmore h
    exact ⟨rfl, rfl, textMeasurementOption_ok hx⟩
  | _ =>
    obtain ⟨rfl, rfl⟩ := hmore h
    exact ⟨rfl, rfl, rfl⟩

theorem branch_finished {arg : Argument} (h : branch v w a token arg = .ok (.finished a')) :
    (arg = .clientCommandline ∧ a'.clientCommandLine = w.remain) ∨ (arg = .unknown ∧ a'.clientCommandLine = v.remain) := by
  cases arg with
  | clientCommandline => exact .inl ⟨rfl, congrArg ConsoleArguments.clientCommandLine (Progress.finished.inj (Except.ok.inj h)).symm⟩
  | unknown => exact .inr ⟨rfl, congrArg ConsoleArguments.clientCommandLine (Progress.finished.inj (Except.ok.inj h)).symm⟩
  | condrvHandle =>
    unfold branch at h
    split_ifs at h
    obtain ⟨_, -, h⟩ := bind_eq_ok h
    cases h
  | serverHandle | signalHandle | width | height | feature | textMeasurement =>
    obtain ⟨_, -, h⟩ := bind_eq_ok h
    cases h
  | _ => cases h

/-- The handle of an option is there already. -/
def ConsoleArguments.taken (a : ConsoleArguments) : Argument → Bool
  | .condrvHandle => a.condrvHandle ≠ 0
  | .serverHandle => a.serverHandle ≠ 0
  | .signalHandle => a.signalHandle ≠ 0
  | _ => false

/-- A numeric option in front of the parser, with the text of its number. -/
inductive NumericAt (v : View) : Argument → NumberKind → List UInt16 → Prop
  | token {token : List UInt16} {w : View} (hnext : v.next = some (token, w))
      (harg : Argument.ofToken token = .condrvHandle) : NumericAt v .condrvHandle .handle token
  | value {token value : List UInt16} {w v' : View} {kind : NumberKind} (hnext : v.next = some (token, w))
      (hkind : (Argument.ofToken token).valueKind = some (some kind)) (hvalue : Value w value v') :
      NumericAt v (.ofToken token) kind value

theorem prefix_of_condrvHandle (h : Argument.ofToken token = .condrvHandle) : handlePrefix <+: token := by
  have hite {p : Prop} [Decidable p] {x y : Argument} (hx : x ≠ .condrvHandle) (hy : y ≠ .condrvHandle) :
      (if p then x else y) ≠ .condrvHandle := by
    split_ifs <;> assumption
  by_contra hno
  rw [Argument.ofToken, if_neg hno] at h
  revert h
  repeat' apply hite
  all_goals decide

/-- The value behind `--server`, `--signal`, `--width` or `--height`. -/
theorem branch_value {arg : Argument} {kind : NumberKind} {v' : View} (hkind : arg.valueKind = some (some kind))
    (hvalue : Value w value v') :
    (∃ x b, branch v w a token arg = .ok (.more x b)) ↔ a.taken arg = false ∧ Accepted kind value := by
  have hsame {value' : List UInt16} {x : View} (h : Value w value' x) : value' = value :=
    (Prod.mk.inj (Option.some_inj.mp (h.2.symm.trans hvalue.2))).1
  cases arg with
  | serverHandle | signalHandle =>
    obtain rfl : NumberKind.handle = kind := Option.some_inj.mp (Option.some_inj.mp hkind)
    constructor
    · rintro ⟨x, b, h⟩
      obtain ⟨⟨n, y⟩, hn, -⟩ := bind_eq_ok h
      obtain ⟨hzero, value', hvalue', hfront, hn⟩ := handleOption_ok.mp hn
      rw [hsame hvalue'] at hfront hn
      exact ⟨by simpa [ConsoleArguments.taken] using hzero, hfront, n, hn⟩
    · rintro ⟨hfree, hfront, n, hn⟩
      have hzero := by simpa [ConsoleArguments.taken] using hfree
      refine ⟨v', ?_, ?_⟩
      rotate_left
      · rw [branch, handleOption_ok.mpr ⟨hzero, value, hvalue, hfront, hn⟩]
        rfl
  | width | height =>
    obtain rfl : NumberKind.size = kind := Option.some_inj.mp (Option.some_inj.mp hkind)
    constructor
    · rintro ⟨x, b, h⟩
      obtain ⟨⟨n, y⟩, hn, -⟩ := bind_eq_ok h
      obtain ⟨value', hvalue', hn⟩ := sizeOption_ok.mp hn
      rw [hsame hvalue'] at hn
      exact ⟨rfl, n, hn⟩
    · rintro ⟨-, n, hn⟩
      refine ⟨v', ?_, ?_⟩
      rotate_left
      · rw [branch, sizeOption_ok.mpr ⟨value, hvalue, hn⟩]
        rfl
  | _ => nomatch hkind

/-- A numeric option is accepted with its text. -/
theorem NumericAt.accepted_iff {arg : Argument} {kind : NumberKind} (h : NumericAt v arg kind text) :
    (∃ x b, step v a = .ok (.more x b)) ↔ a.taken arg = false ∧ Accepted kind text := by
  cases h with
  | value hnext hkind hvalue => rw [step_eq hnext, branch_value hkind hvalue]
  | token hnext harg =>
    rw [step_eq hnext, harg]
    unfold branch
    constructor
    · rintro ⟨x, b, h⟩
      split_ifs at h with hzero
      obtain ⟨n, hn, -⟩ := bind_eq_ok h
      exact ⟨by simpa [ConsoleArguments.taken] using hzero, prefix_of_condrvHandle harg, n, hn⟩
    · rintro ⟨hfree, -, n, hn⟩
      rw [if_neg (by simpa [ConsoleArguments.taken] using hfree), hn]
      exact ⟨_, _, rfl⟩

/-! ## The command line of the client -/

/-- The command line of the client, from where the parser stands: behind `--`, or
from the first token on that is no known option; options are passed over with
their values. -/
inductive ClientLine : View → List UInt16 → Prop
  | none {v : View} (hdone : v.done) : ClientLine v []
  | separator {v w : View} {token : List UInt16} (hdone : ¬ v.done) (hnext : v.next = some (token, w))
      (harg : Argument.ofToken token = .clientCommandline) : ClientLine v w.remain
  | unknown {v w : View} {token : List UInt16} (hdone : ¬ v.done) (hnext : v.next = some (token, w))
      (harg : Argument.ofToken token = .unknown) : ClientLine v v.remain
  | option {v w : View} {token line : List UInt16} (hdone : ¬ v.done) (hnext : v.next = some (token, w))
      (harg : (Argument.ofToken token).known) (hvalue : (Argument.ofToken token).valueKind.isNone)
      (hrest : ClientLine w line) : ClientLine v line
  | optionValue {v w v' : View} {token value line : List UInt16} (hdone : ¬ v.done) (hnext : v.next = some (token, w))
      (harg : (Argument.ofToken token).valueKind.isSome) (hvalue : Value w value v') (hrest : ClientLine v' line) :
      ClientLine v line

theorem loop_client {fuel : Nat} (h : loop fuel v a = .ok a') (hnew : a.clientCommandLine = []) :
    ClientLine v a'.clientCommandLine := by
  induction fuel generalizing v a with
  | zero =>
    unfold loop at h
    split_ifs at h with hdone
    obtain rfl := Except.ok.inj h
    exact hnew ▸ .none hdone
  | succ fuel ih =>
    unfold loop at h
    split_ifs at h with hdone
    · obtain rfl := Except.ok.inj h
      exact hnew ▸ .none hdone
    obtain ⟨r, hr, h⟩ := bind_eq_ok h
    obtain ⟨token, w, hnext, hbranch⟩ := step_next hr
    cases r with
    | finished b =>
      obtain rfl := Except.ok.inj h
      rcases branch_finished hbranch with ⟨harg, hline⟩ | ⟨harg, hline⟩
      · exact hline ▸ .separator hdone hnext harg
      · exact hline ▸ .unknown hdone hnext harg
    | more v' b =>
      obtain ⟨hknown, hline, hvalue⟩ := branch_more hbranch
      have hrest := ih h (hline.trans hnew)
      split_ifs at hvalue with hkind
      · obtain ⟨value, hvalue⟩ := hvalue
        exact .optionValue hdone hnext hkind hvalue hrest
      · subst hvalue
        exact .option hdone hnext hknown (by simpa using hkind) hrest

/-- The views that the parser goes through stay in the command line. -/
theorem ClientLine.suffix {line cmdline : List UInt16} (h : ClientLine v line) (hv : v.Reached cmdline) : line <:+ cmdline := by
  induction h with
  | none hdone => exact List.nil_suffix
  | separator hdone hnext harg =>
    obtain ⟨hb, rfl⟩ := (hv.next hnext).bounded
    exact hb.suffix
  | unknown hdone hnext harg =>
    obtain ⟨hb, rfl⟩ := hv.bounded
    exact hb.suffix
  | option hdone hnext harg hvalue hrest ih => exact ih (hv.next hnext)
  | optionValue hdone hnext harg hvalue hrest ih => exact ih ((hv.next hnext).next hvalue.2)

/-! ## The whole command line -/

theorem bind_undefined {α β : Type} {x : Except Failure α} {f : α → Except Failure β} (hx : x ≠ .error .undefined)
    (hf : ∀ a, x = .ok a → f a ≠ .error .undefined) : x >>= f ≠ .error .undefined := by
  cases x with
  | error e => exact fun h => hx (congrArg Except.error (Except.error.inj h))
  | ok a => exact hf a rfl

theorem next_shorter (h : v.Bounded) (hdone : ¬ v.done) : ∃ token w, v.next = some (token, w) ∧ w.Bounded ∧
    w.rest.length < v.rest.length := by
  obtain ⟨token, w, hnext, hb, -, hlt⟩ := h.next fun h0 => hdone (List.isEmpty_iff.mpr h0)
  exact ⟨token, w, hnext, hb, hlt⟩

theorem optionValue_defined (h : w.Bounded) (missing : ParseError) : optionValue w missing ≠ .error .undefined := by
  unfold optionValue
  split_ifs with hdone
  · nofun
  · obtain ⟨token, x, hnext, -, -⟩ := next_shorter h hdone
    rw [nextToken_ok.mpr hnext]
    nofun

theorem parseHandleValue_defined (text : List UInt16) : parseHandleValue text ≠ .error .undefined := by
  unfold parseHandleValue
  split_ifs
  · nofun
  · nofun
  · cases fromChars 16 (2 ^ 64) text <;> nofun

theorem parseSizeValue_defined (text : List UInt16) : parseSizeValue text ≠ .error .undefined := by
  unfold parseSizeValue
  split_ifs
  · nofun
  · nofun
  · cases fromCharsShort text with
    | none => nofun
    | some value =>
      dsimp only
      split_ifs <;> nofun

theorem handleOption_defined (h : w.Bounded) (handle : Nat) (duplicate missing : ParseError) :
    handleOption w handle duplicate missing ≠ .error .undefined := by
  unfold handleOption
  split_ifs
  · nofun
  · refine bind_undefined (optionValue_defined h missing) fun r _ => ?_
    dsimp only
    split_ifs
    · exact bind_undefined (parseHandleValue_defined _) fun n _ => nofun
    · nofun

theorem sizeOption_defined (h : w.Bounded) (missing : ParseError) : sizeOption w missing ≠ .error .undefined :=
  bind_undefined (optionValue_defined h missing) fun _ _ => bind_undefined (parseSizeValue_defined _) fun _ _ => nofun

theorem branch_defined (h : w.Bounded) (arg : Argument) : branch v w a token arg ≠ .error .undefined := by
  cases arg with
  | condrvHandle =>
    unfold branch
    split_ifs
    · nofun
    · exact bind_undefined (parseHandleValue_defined _) fun _ _ => nofun
  | serverHandle | signalHandle => exact bind_undefined (handleOption_defined h _ _ _) fun _ _ => nofun
  | width | height => exact bind_undefined (sizeOption_defined h _) fun _ _ => nofun
  | feature =>
    refine bind_undefined (bind_undefined (optionValue_defined h _) fun r _ => ?_) fun _ _ => nofun
    dsimp only
    split_ifs <;> nofun
  | textMeasurement =>
    refine bind_undefined (bind_undefined (optionValue_defined h _) fun r _ => ?_) fun _ _ => nofun
    dsimp only
    split_ifs <;> nofun
  | _ => nofun

/-- A round of the loop takes a part of the command line. -/
theorem step_shorter (h : v.Bounded) (hdone : ¬ v.done) : step v a ≠ .error .undefined ∧
    ∀ v' a', step v a = .ok (.more v' a') → v'.Bounded ∧ v'.rest.length < v.rest.length := by
  obtain ⟨token, w, hnext, hb, hlt⟩ := next_shorter h hdone
  rw [step_eq hnext]
  refine ⟨branch_defined hb _, fun v' a' hmore => ?_⟩
  obtain ⟨-, -, hvalue⟩ := branch_more hmore
  split_ifs at hvalue
  · obtain ⟨value, hwdone, hwnext⟩ := hvalue
    obtain ⟨value', x, hx, hxb, hxlt⟩ := next_shorter hb hwdone
    obtain ⟨-, rfl⟩ := Prod.mk.inj (Option.some_inj.mp (hx.symm.trans hwnext))
    exact ⟨hxb, Nat.lt_trans hxlt hlt⟩
  · exact hvalue ▸ ⟨hb, hlt⟩

theorem loop_defined {fuel : Nat} (h : v.Bounded) (hfuel : v.rest.length ≤ fuel) : loop fuel v a ≠ .error .undefined := by
  induction fuel generalizing v a with
  | zero =>
    have hdone : v.done := List.isEmpty_iff.mpr (List.length_eq_zero_iff.mp (Nat.le_zero.mp hfuel))
    rw [loop, if_pos hdone]
    nofun
  | succ fuel ih =>
    rw [loop]
    split_ifs with hdone
    · nofun
    · obtain ⟨hdefined, hmore⟩ := @step_shorter v a h hdone
      refine bind_undefined hdefined fun r hr => ?_
      cases r with
      | finished b => nofun
      | more v' b =>
        obtain ⟨hb, hlt⟩ := hmore v' b hr
        exact ih hb (by omega)

/-- The states of the loop. -/
inductive ArgumentsReached (commandLine : List UInt16) : View → ConsoleArguments → Prop
  | start {name : List UInt16} {v : View} (h : (View.ofText commandLine).next = some (name, v)) :
      ArgumentsReached commandLine v { originalCommandLine := commandLine }
  | round {v v' : View} {a a' : ConsoleArguments} (h : ArgumentsReached commandLine v a) (hdone : ¬ v.done)
      (hstep : step v a = .ok (.more v' a')) : ArgumentsReached commandLine v' a'

variable {commandLine : List UInt16}

theorem consoleArguments_eq {name : List UInt16} (h : (View.ofText commandLine).next = some (name, v)) :
    consoleArguments commandLine = loop commandLine.length v { originalCommandLine := commandLine } := by
  rw [consoleArguments, nextToken_ok.mpr h]
  rfl

/-- From a state of the loop on, the constructor does what the loop does. -/
theorem ArgumentsReached.loop_eq (h : ArgumentsReached commandLine v a) (hne : commandLine ≠ []) :
    v.Bounded ∧ ∃ fuel, v.rest.length ≤ fuel ∧ consoleArguments commandLine = loop fuel v a := by
  induction h with
  | start hnext =>
    obtain ⟨name', w, hw, hb, -, hlt⟩ := (View.bounded_ofText commandLine).next hne
    obtain ⟨-, rfl⟩ := Prod.mk.inj (Option.some_inj.mp (hw.symm.trans hnext))
    exact ⟨hb, _, Nat.le_of_lt hlt, consoleArguments_eq hnext⟩
  | @round v v' a a' _ hdone hstep ih =>
    obtain ⟨hb, fuel, hfuel, heq⟩ := ih
    obtain ⟨hb', hlt⟩ := (step_shorter hb hdone).2 v' a' hstep
    obtain ⟨n, rfl⟩ : ∃ n, fuel = n + 1 := ⟨fuel - 1, by omega⟩
    refine ⟨hb', n, by omega, ?_⟩
    rw [heq, loop, if_neg hdone, hstep]
    rfl

/-- An error of a round is the error of the constructor. -/
theorem ArgumentsReached.error (h : ArgumentsReached commandLine v a) (hne : commandLine ≠ []) (hdone : ¬ v.done) {f : Failure}
    (hstep : step v a = .error f) : consoleArguments commandLine = .error f := by
  obtain ⟨-, fuel, hfuel, heq⟩ := h.loop_eq hne
  have hpos : v.rest.length ≠ 0 := fun h0 => hdone (List.isEmpty_iff.mpr (List.length_eq_zero_iff.mp h0))
  obtain ⟨n, rfl⟩ : ∃ n, fuel = n + 1 := ⟨fuel - 1, by omega⟩
  rw [heq, loop, if_neg hdone, hstep]
  rfl

theorem consoleArguments_empty : consoleArguments [] = .error .undefined := rfl

/-- A numeric option does not end the loop. -/
theorem NumericAt.not_finished {arg : Argument} {kind : NumberKind} (h : NumericAt v arg kind text) :
    step v a ≠ .ok (.finished a') := by
  intro hstep
  obtain ⟨token, w, hnext, hbranch⟩ := step_next hstep
  have hend : Argument.ofToken token = .clientCommandline ∨ Argument.ofToken token = .unknown :=
    (branch_finished hbranch).imp And.left And.left
  cases h with
  | token hnext' harg =>
    obtain ⟨rfl, -⟩ := Prod.mk.inj (Option.some_inj.mp (hnext.symm.trans hnext'))
    rcases hend with hend | hend <;> cases hend.symm.trans harg
  | value hnext' hkind hvalue =>
    obtain ⟨rfl, -⟩ := Prod.mk.inj (Option.some_inj.mp (hnext.symm.trans hnext'))
    rcases hend with hend | hend <;> rw [hend] at hkind <;> cases hkind

/-- Whether a numeric option that is reached is refused unless its text is a number. -/
theorem refused_iff {arg : Argument} {kind : NumberKind} (h : ArgumentsReached commandLine v a) (hne : commandLine ≠ [])
    (hdone : ¬ v.done) (hat : NumericAt v arg kind text) :
    (¬ IsNumber kind text → ∃ e, step v a = .error (.parse e) ∧ consoleArguments commandLine = .error (.parse e)) ↔
      (a.taken arg = false → ¬ IsPartial kind text) := by
  constructor
  · intro hrefused hfree hpartial
    have hno := mt accepted_isNumber_iff.mp (not_not.mpr hpartial)
    push Not at hno
    obtain ⟨x, b, hstep⟩ := hat.accepted_iff.mpr ⟨hfree, hno.1⟩
    obtain ⟨e, he, -⟩ := hrefused hno.2
    cases hstep.symm.trans he
  · intro hwhole hno
    cases hstep : step v a with
    | error f =>
      cases f with
      | undefined => exact absurd hstep (step_shorter (h.loop_eq hne).1 hdone).1
      | parse e => exact ⟨e, rfl, h.error hne hdone hstep⟩
    | ok r =>
      cases r with
      | finished b => exact absurd hstep hat.not_finished
      | more x b =>
        obtain ⟨hfree, haccepted⟩ := hat.accepted_iff.mp ⟨x, b, hstep⟩
        exact absurd (accepted_isNumber_iff.mpr (hwhole hfree) haccepted) hno

/-- The constructor is defined, refuses each numeric option that it comes to and
that is no number as a whole, and leaves the end of the command line to the
client, exactly when the command line is not empty and no numeric option that it
comes to, with a handle that is not there yet, has a partial number. -/
theorem console_arguments_iff (commandLine : List UInt16) :
    (consoleArguments commandLine ≠ .error .undefined ∧
      (∀ v a arg kind text, ArgumentsReached commandLine v a → ¬ v.done → NumericAt v arg kind text → ¬ IsNumber kind text →
        ∃ e, step v a = .error (.parse e) ∧ consoleArguments commandLine = .error (.parse e)) ∧
      ∀ a, consoleArguments commandLine = .ok a → a.clientCommandLine <:+ commandLine ∧
        ∃ name v, (View.ofText commandLine).next = some (name, v) ∧ ClientLine v a.clientCommandLine) ↔
    commandLine ≠ [] ∧
      ∀ v a arg kind text, ArgumentsReached commandLine v a → ¬ v.done → NumericAt v arg kind text → a.taken arg = false →
        ¬ IsPartial kind text := by
  constructor
  · rintro ⟨hdefined, hnumbers, -⟩
    have hne : commandLine ≠ [] := fun h0 => hdefined (h0 ▸ consoleArguments_empty)
    exact ⟨hne, fun v a arg kind text hreached hdone hat =>
      (refused_iff hreached hne hdone hat).mp (hnumbers v a arg kind text hreached hdone hat)⟩
  · rintro ⟨hne, hwhole⟩
    obtain ⟨name, v, hnext, hb, -, hlt⟩ := (View.bounded_ofText commandLine).next hne
    refine ⟨?_, fun v a arg kind text hreached hdone hat =>
      (refused_iff hreached hne hdone hat).mpr (hwhole v a arg kind text hreached hdone hat), fun a ha => ?_⟩
    · rw [consoleArguments_eq hnext]
      exact loop_defined hb (Nat.le_of_lt hlt)
    · rw [consoleArguments_eq hnext] at ha
      have hline := loop_client ha rfl
      exact ⟨hline.suffix (.next .start hnext), name, v, hnext, hline⟩

/-- `host 0x1g`: the handle is 1. -/
theorem handle_with_other_character :
    (∃ a, consoleArguments (wide "host 0x1g") = .ok a ∧ a.condrvHandle = 1) ∧ ¬ IsNumber .handle (wide "0x1g") := by
  have hparse : parseNextLoop 0 0 (wide "0x1g") = (wide "0x1g", []) := by
    simp [parseNextLoop, wide, isBlank, backslash, quoteChar]
  have hfirst : (View.ofText (wide "host 0x1g")).next =
      some (wide "host", ⟨wide "host 0x1g", wide "0x1g", ⟨10, wide "host" ++ [0]⟩⟩) := by
    decide
  have hnext : (View.mk (wide "host 0x1g") (wide "0x1g") ⟨10, wide "host" ++ [0]⟩).next =
      some (wide "0x1g", ⟨wide "host 0x1g", [], ⟨10, wide "host" ++ [0] ++ (wide "0x1g" ++ [0])⟩⟩) := by
    rw [View.next, if_neg (by decide), if_neg (by decide), if_neg (by decide), hparse]
    decide
  refine ⟨⟨{ originalCommandLine := wide "host 0x1g", condrvHandle := 1 }, ?_, rfl⟩, ?_⟩
  · rw [consoleArguments_eq hfirst]
    change loop (8 + 1) _ _ = _
    rw [loop, if_neg (by decide), step_eq hnext]
    decide
  · exact @Begins.not_isNumber _ [] .handle 0x67 ⟨(handlePrefix, 2 ^ 64), by simp [NumberKind.leads], wide "1", by decide,
      by decide, List.forall_mem_singleton.mpr (by decide), by decide⟩ (by decide)

end Corehost.CommandLine
