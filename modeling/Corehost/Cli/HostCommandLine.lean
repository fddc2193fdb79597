import Corehost.Cli.ConsoleArguments
import Corehost.Lib.Cpp
import Mathlib.Data.Nat.Digits.Lemmas

/-!
# The command line of a new host

`CreatePseudoConsole` starts the host with a command line that says where it
finds its handles and how large the terminal is: the model of
`BuildConhostCommandLine` (`libconpty.hpp`), which the host reads with
`console_arguments`.

* `At.next`: tokens without quotes, backslashes and blanks are read one by one;
* `valueOf_numberText`: the numbers are read back;
* `host_command_line_read`: the host has what the command line was built from,
  unless a size is negative.
-/

namespace Corehost.CommandLine

open Lib

/-! ## The model -/

/-- The digits of `%Ix` and `%hd`. -/
def digitUnit (d : Nat) : UInt16 := .ofNat (if d < 10 then 0x30 + d else 0x61 + (d - 10))

/-- A number with at least one digit. -/
def numberText (base n : Nat) : List UInt16 :=
  if n = 0 then [0x30] else (Nat.digits base n).reverse.map digitUnit

/-- `%hd`. -/
def shortText (n : Int) : List UInt16 := if n < 0 then 0x2D :: numberText 10 n.natAbs else numberText 10 n.natAbs

/-- `0x%Ix`. -/
def handleText (handle : UInt64) : List UInt16 := handlePrefix ++ numberText 16 handle.toNat

/-- The text that the flags of `CreatePseudoConsole` ask for. -/
def textMeasurementText (flags : UInt32) : List UInt16 :=
  if flags &&& 0x18 = 0x08 then wide "--textMeasurement graphemes "
  else if flags &&& 0x18 = 0x10 then wide "--textMeasurement wcswidth "
  else if flags &&& 0x18 = 0x18 then wide "--textMeasurement console "
  else []

/-- What `%s` writes. -/
def cString (text : List UInt16) : List UInt16 := text.takeWhile (· ≠ 0)

def hostCommandLineText (path : List UInt16) (width height : Int) (signal server : UInt64) (flags : UInt32) : List UInt16 :=
  quoteChar :: cString path ++ wide "\" --headless " ++ (if flags &&& 1 ≠ 0 then wide "--inheritcursor " else []) ++
    (if flags &&& 0x20 ≠ 0 then wide "--ambiguousIsWide " else []) ++ textMeasurementText flags ++ wide "--width " ++
    shortText width ++ wide " --height " ++ shortText height ++ wide " --signal " ++ handleText signal ++ wide " --server " ++
    handleText server

/-- `BuildConhostCommandLine`. `swprintf` fails when the text and its terminator
do not fit into the buffer. -/
def buildConhostCommandLine (path : List UInt16) (width height : Int) (signal server : UInt64) (flags : UInt32) :
    List UInt16 :=
  let text := hostCommandLineText path width height signal server flags
  if text.length + 1 > path.length + 168 then [] else text

/-! ## Tokens -/

/-- Nothing in the token means anything to the split. -/
structure PlainToken (token : List UInt16) : Prop where
  nonempty : token ≠ []
  units : ∀ ch ∈ token, ch ≠ quoteChar ∧ ch ≠ backslash ∧ isBlank ch = false

def plainText (tokens : List (List UInt16)) : List UInt16 := tokens.flatMap fun token => 0x20 :: token

variable {token : List UInt16} {tokens : List (List UInt16)} {rest : List UInt16}

theorem plainToken_of_all (h : (!token.isEmpty && token.all fun ch => ch != quoteChar && ch != backslash && !isBlank ch) = true) :
    PlainToken token := by
  obtain ⟨hne, hall⟩ := Bool.and_eq_true_iff.mp h
  refine ⟨by simpa using hne, fun ch hch => ?_⟩
  simpa [and_assoc] using List.all_eq_true.mp hall ch hch

theorem atBlank_plainText (tokens : List (List UInt16)) : AtBlank (plainText tokens) := by
  rcases tokens with _ | ⟨token, tokens⟩
  · exact fun ch hch => absurd hch (by simp [plainText])
  · rintro ch hch
    rw [← Option.some_inj.mp hch]
    decide

theorem plainText_skip (h : PlainToken token) (tokens : List (List UInt16)) :
    (plainText (token :: tokens)).dropWhile isBlank = token ++ plainText tokens := by
  rw [plainText, List.flatMap_cons, List.cons_append, List.dropWhile_cons_of_pos (by decide)]
  obtain ⟨ch, token, rfl⟩ := List.exists_cons_of_ne_nil h.nonempty
  exact List.dropWhile_cons_of_neg (by rw [(h.units ch List.mem_cons_self).2.2]; decide)

theorem parseNextLoop_plain (h : ∀ ch ∈ token, ch ≠ quoteChar ∧ ch ≠ backslash ∧ isBlank ch = false) (hrest : AtBlank rest) :
    parseNextLoop 0 0 (token ++ rest) = (token, rest) := by
  induction token with
  | nil => exact parseNextLoop_atBlank hrest
  | cons ch token ih =>
    obtain ⟨hquote, hslash, hblank⟩ := h ch List.mem_cons_self
    rw [List.cons_append, parseNextLoop, if_neg (by simp [hblank]), if_neg hslash, if_neg hquote,
      ih fun c hc => h c (List.mem_cons_of_mem ch hc)]
    rfl

/-- A view in front of these tokens, behind the name of the program. -/
structure At (v : View) (tokens : List (List UInt16)) : Prop where
  bounded : v.Bounded
  begun : v.buffer.data ≠ []
  rest : v.rest = (plainText tokens).dropWhile isBlank

variable {v : View}

theorem At.ne_nil (h : At v (token :: tokens)) (ht : PlainToken token) : v.rest ≠ [] := by
  rw [h.rest, plainText_skip ht]
  exact List.append_ne_nil_of_left_ne_nil ht.nonempty _

/-- The next token is read, and the view is in front of the others. -/
theorem At.next (h : At v (token :: tokens)) (ht : PlainToken token) :
    ¬ v.done ∧ ∃ w, v.next = some (token, w) ∧ At w tokens := by
  have hne := h.ne_nil ht
  have hdone : ¬ v.done := fun h0 => hne (List.isEmpty_iff.mp h0)
  have hcmdline : v.cmdline ≠ [] := fun h0 => hne (List.suffix_nil.mp (h0 ▸ h.bounded.suffix))
  have hparse : parseNextLoop 0 0 v.rest = (token, plainText tokens) := by
    rw [h.rest, plainText_skip ht, parseNextLoop_plain ht.units (atBlank_plainText tokens)]
  obtain ⟨w, hw, hb, -, hdata, hrest, -⟩ := h.bounded.finish hne (split_next v.rest)
  rw [hparse] at hw hrest
  refine ⟨hdone, w, ?_, hb, hdata, hrest⟩
  rw [View.next, if_neg hcmdline, if_neg h.begun, if_neg hdone, hparse, hw]

/-! ## Numbers -/

theorem digitUnit_spec : ∀ d < 16, digitOf (digitUnit d) = d ∧ digitUnit d ≤ 0x7F ∧
    digitUnit d ≠ quoteChar ∧ digitUnit d ≠ backslash ∧ isBlank (digitUnit d) = false ∧ digitUnit d ≠ 0x2D := by decide

variable {base n : Nat}

theorem numberText_units (hbase : 2 ≤ base ∧ base ≤ 16) (n : Nat) :
    ∀ ch ∈ numberText base n, ∃ d, d < base ∧ ch = digitUnit d := by
  intro ch hch
  unfold numberText at hch
  split at hch
  · exact ⟨0, by omega, List.mem_singleton.mp hch⟩
  · obtain ⟨d, hd, rfl⟩ := List.mem_map.mp hch
    exact ⟨d, Nat.digits_lt_base (by omega) (List.mem_reverse.mp hd), rfl⟩

theorem numberText_ne_nil (base n : Nat) : numberText base n ≠ [] := by
  unfold numberText
  split_ifs with h0
  · simp
  · simpa using Nat.digits_ne_nil_iff_ne_zero.mpr h0

/-- The number is read back from its digits. -/
theorem valueOf_numberText (hbase : 2 ≤ base ∧ base ≤ 16) (n : Nat) : valueOf base (numberText base n) = n := by
  have hvalue : ∀ ds : List Nat, (∀ d ∈ ds, d < base) → valueOf base (ds.reverse.map digitUnit) = Nat.ofDigits base ds := by
    intro ds hds
    rw [valueOf, List.foldl_map, List.foldl_reverse]
    induction ds with
    | nil => rfl
    | cons d ds ih =>
      rw [List.foldr_cons, ih fun d' hd' => hds d' (List.mem_cons_of_mem d hd'), Nat.ofDigits_cons,
        (digitUnit_spec d (by have := hds d List.mem_cons_self; omega)).1, Nat.mul_comm, Nat.add_comm]
  unfold numberText
  split_ifs with h0
  · simp [valueOf, digitOf, h0]
  · rw [hvalue _ fun d hd => Nat.digits_lt_base (by omega) hd, Nat.ofDigits_digits]

theorem length_numberText {k : Nat} (hbase : 2 ≤ base) (hk : 0 < k) (h : n < base ^ k) : (numberText base n).length ≤ k := by
  unfold numberText
  split_ifs with h0
  · exact hk
  · rw [List.length_map, List.length_reverse]
    exact (Nat.digits_length_le_iff hbase n).mpr h

theorem fromChars_numberText (hbase : 2 ≤ base ∧ base ≤ 16) {bound : Nat} (h : n < bound) :
    fromChars base bound (numberText base n) = some n := by
  refine fromChars_some.mpr ⟨numberText base n, [], (List.append_nil _).symm, ⟨numberText_ne_nil base n, fun ch hch => ?_, ?_⟩,
    fun ch hch => absurd hch (by simp), valueOf_numberText hbase n⟩
  · obtain ⟨d, hd, rfl⟩ := numberText_units hbase n ch hch
    rw [isDigit, (digitUnit_spec d (by omega)).1]
    exact decide_eq_true hd
  · rwa [valueOf_numberText hbase n]

theorem numberText_ascii (hbase : 2 ≤ base ∧ base ≤ 16) (n : Nat) : ¬ ∃ ch ∈ numberText base n, ch > 0x7F := by
  rintro ⟨ch, hch, hlt⟩
  obtain ⟨d, hd, rfl⟩ := numberText_units hbase n ch hch
  exact absurd hlt (UInt16.not_lt.mpr (digitUnit_spec d (by omega)).2.1)

theorem parseHandleValue_numberText (handle : UInt64) : parseHandleValue (numberText 16 handle.toNat) = .ok handle.toNat := by
  have hlt : handle.toNat < 16 ^ 16 := handle.toNat_lt
  have hlen := length_numberText (by decide) (by decide) hlt
  rw [parseHandleValue, if_neg (by omega), if_neg (numberText_ascii (by decide) _), fromChars_numberText (by decide) handle.toNat_lt]

theorem fromCharsShort_numberText {n : Nat} (h : n < 0x8000) : fromCharsShort (numberText 10 n) = some (n : Int) := by
  have hhead : ∀ digits, numberText 10 n ≠ 0x2D :: digits := by
    intro digits heq
    obtain ⟨d, hd, hunit⟩ := @numberText_units 10 (by decide) n 0x2D (by rw [heq]; exact List.mem_cons_self)
    exact (digitUnit_spec d (by omega)).2.2.2.2.2 hunit.symm
  unfold fromCharsShort
  split
  · rename_i digits heq
    exact absurd heq (hhead digits)
  · rw [fromChars_numberText (by decide) h]
    rfl

/-- A `short` that is not negative is read back, and no other is accepted. -/
theorem parseSizeValue_shortText {n : Int} (h : IsShort n) : parseSizeValue (shortText n) =
    if 0 ≤ n then .ok n.toNat else .error (.parse .invalidSizeValue) := by
  obtain ⟨h1, h2⟩ := h
  have hlen : (numberText 10 n.natAbs).length ≤ 5 := length_numberText (by decide) (by decide) (by omega)
  have hascii := @numberText_ascii 10 (by decide) n.natAbs
  by_cases hneg : n < 0
  · rw [if_neg (by omega), shortText, if_pos hneg, parseSizeValue]
    by_cases hlong : (0x2D :: numberText 10 n.natAbs).length > 5
    · rw [if_pos hlong]
    · have hminus : fromCharsShort (0x2D :: numberText 10 n.natAbs) = some (-(n.natAbs : Int)) := by
        rw [fromCharsShort, fromChars_numberText (by decide) (by omega)]
        rfl
      rw [if_neg hlong, if_neg (by simpa using hascii), hminus]
      dsimp only
      rw [if_pos (by omega)]
  · rw [if_pos (by omega), shortText, if_neg hneg, parseSizeValue, if_neg (by omega), if_neg hascii,
      fromCharsShort_numberText (by omega)]
    dsimp only
    rw [if_neg (by omega), Int.toNat_natCast, show n.natAbs = n.toNat by omega]

/-! ## The rounds of the host -/

/-- The tokens of the command line behind the program. -/
def hostTokens (width height : Int) (signal server : UInt64) (flags : UInt32) : List (List UInt16) :=
  [wide "--headless"] ++ (if flags &&& 1 ≠ 0 then [wide "--inheritcursor"] else []) ++
    (if flags &&& 0x20 ≠ 0 then [wide "--ambiguousIsWide"] else []) ++
    (if flags &&& 0x18 = 0x08 then [wide "--textMeasurement", wide "graphemes"]
     else if flags &&& 0x18 = 0x10 then [wide "--textMeasurement", wide "wcswidth"]
     else if flags &&& 0x18 = 0x18 then [wide "--textMeasurement", wide "console"]
     else []) ++
    [wide "--width", shortText width, wide "--height", shortText height, wide "--signal", handleText signal,
     wide "--server", handleText server]

theorem hostCommandLineText_eq (path : List UInt16) (width height : Int) (signal server : UInt64) (flags : UInt32) :
    hostCommandLineText path width height signal server flags =
      quoteChar :: cString path ++ [quoteChar] ++ plainText (hostTokens width height signal server flags) := by
  unfold hostCommandLineText hostTokens textMeasurementText plainText
  split_ifs <;> simp [wide, quoteChar]

theorem length_shortText {n : Int} (h : IsShort n) : (shortText n).length ≤ 6 := by
  obtain ⟨h1, h2⟩ := h
  have hlen : (numberText 10 n.natAbs).length ≤ 5 := length_numberText (by decide) (by decide) (by omega)
  unfold shortText
  split_ifs
  · rw [List.length_cons]
    omega
  · omega

/-- The buffer of `BuildConhostCommandLine` is long enough. -/
theorem length_hostCommandLineText (path : List UInt16) {width height : Int} (hw : IsShort width) (hh : IsShort height)
    (signal server : UInt64) (flags : UInt32) :
    (hostCommandLineText path width height signal server flags).length + 1 ≤ path.length + 168 := by
  have hpath : (cString path).length ≤ path.length := (List.takeWhile_sublist _).length_le
  have hwidth := length_shortText hw
  have hheight := length_shortText hh
  have hhandle (handle : UInt64) : (handleText handle).length ≤ 18 := by
    have hlt : handle.toNat < 16 ^ 16 := handle.toNat_lt
    have := length_numberText (by decide) (by decide) hlt
    rw [handleText, List.length_append]
    exact Nat.add_le_add (Nat.le_of_eq rfl : handlePrefix.length ≤ 2) this
  have hsignal := hhandle signal
  have hserver := hhandle server
  have hmeasure : (textMeasurementText flags).length ≤ 28 := by
    have h1 : (wide "--textMeasurement graphemes ").length = 28 := by decide
    have h2 : (wide "--textMeasurement wcswidth ").length = 27 := by decide
    have h3 : (wide "--textMeasurement console ").length = 26 := by decide
    unfold textMeasurementText
    split_ifs
    · omega
    · omega
    · omega
    · exact Nat.zero_le _
  have hif {p : Prop} [Decidable p] (text : List UInt16) : (if p then text else []).length ≤ text.length := by
    split
    · exact Nat.le_refl _
    · exact Nat.zero_le _
  have hinherit := hif (p := flags &&& 1 ≠ 0) (wide "--inheritcursor ")
  have hambiguous := hif (p := flags &&& 0x20 ≠ 0) (wide "--ambiguousIsWide ")
  have h1 : (wide "--inheritcursor ").length = 16 := by decide
  have h2 : (wide "--ambiguousIsWide ").length = 18 := by decide
  have h3 : (wide "\" --headless ").length = 13 := by decide
  have h4 : (wide "--width ").length = 8 := by decide
  have h5 : (wide " --height ").length = 10 := by decide
  have h6 : (wide " --signal ").length = 10 := by decide
  have h7 : (wide " --server ").length = 10 := by decide
  simp only [hostCommandLineText, List.length_append, List.length_cons]
  omega

/-- The path in quotes is the first argument. -/
theorem parseFirstLoop_quoted {path : List UInt16} (hpath : quoteChar ∉ path) (rest : List UInt16) :
    parseFirstLoop (quoteChar :: path ++ [quoteChar] ++ rest) = (path, rest) := by
  have hall : ∀ ch ∈ path, decide (ch ≠ quoteChar) = true := fun ch hch => decide_eq_true fun h0 => hpath (h0 ▸ hch)
  rw [List.append_assoc, List.cons_append, List.singleton_append, parseFirstLoop, if_pos rfl,
    List.takeWhile_append_of_pos hall, List.dropWhile_append_of_pos hall, List.takeWhile_cons_of_neg (by simp),
    List.dropWhile_cons_of_neg (by simp), List.append_nil]
  rfl

theorem at_start {path line : List UInt16} (hpath : quoteChar ∉ path) {tokens : List (List UInt16)}
    (hline : line = quoteChar :: path ++ [quoteChar] ++ plainText tokens) :
    ∃ v, ArgumentsReached line v { originalCommandLine := line } ∧ At v tokens := by
  have hne : line ≠ [] := by rw [hline]; simp
  have hparse := parseFirstLoop_quoted hpath (plainText tokens)
  rw [← hline] at hparse
  obtain ⟨v, hv, hb, -, hdata, hrest, -⟩ := (View.bounded_ofText line).finish hne (split_first line)
  rw [hparse] at hv hrest
  refine ⟨v, .start (show _ = some (path, v) from ?_), hb, hdata, hrest⟩
  rw [← hv, ← hparse]
  exact (if_neg hne).trans (if_pos rfl)

section Rounds

variable {line t value : List UInt16} {ts : List (List UInt16)} {a a' : ConsoleArguments}

variable (a') in
/-- A round for an option without a value. -/
theorem reached_flag (h : ArgumentsReached line v a) (hat : At v (t :: ts)) (ht : PlainToken t)
    (hbranch : ∀ v w, branch v w a t (.ofToken t) = .ok (.more w a')) : ∃ v', ArgumentsReached line v' a' ∧ At v' ts := by
  obtain ⟨hdone, w, hw, hat'⟩ := hat.next ht
  exact ⟨w, h.round hdone ((step_eq hw).trans (hbranch v w)), hat'⟩

/-- A round for an option with its value. -/
theorem reached_value (h : ArgumentsReached line v a) (hat : At v (t :: value :: ts)) (ht : PlainToken t)
    (hvalue : PlainToken value)
    (hbranch : ∀ v w v', Value w value v' → branch v w a t (.ofToken t) = .ok (.more v' a')) :
    ∃ v', ArgumentsReached line v' a' ∧ At v' ts := by
  obtain ⟨hdone, w, hw, hat'⟩ := hat.next ht
  obtain ⟨hdone', w', hw', hat''⟩ := hat'.next hvalue
  exact ⟨w', h.round hdone ((step_eq hw).trans (hbranch v w w' ⟨hdone', hw'⟩)), hat''⟩

/-- A round that fails. -/
theorem error_value (h : ArgumentsReached line v a) (hne : line ≠ []) (hat : At v (t :: value :: ts)) (ht : PlainToken t)
    (hvalue : PlainToken value) {f : Failure}
    (hbranch : ∀ v w v', Value w value v' → branch v w a t (.ofToken t) = .error f) : consoleArguments line = .error f := by
  obtain ⟨hdone, w, hw, hat'⟩ := hat.next ht
  obtain ⟨hdone', w', hw', -⟩ := hat'.next hvalue
  exact h.error hne hdone ((step_eq hw).trans (hbranch v w w' ⟨hdone', hw'⟩))

/-- The end of the line. -/
theorem arguments_eq (h : ArgumentsReached line v a) (hne : line ≠ []) (hat : At v []) : consoleArguments line = .ok a := by
  obtain ⟨-, fuel, -, heq⟩ := h.loop_eq hne
  have hdone : v.done = true := List.isEmpty_iff.mpr hat.rest
  rw [heq]
  cases fuel with
  | zero => rw [loop, if_pos hdone]
  | succ n => rw [loop, if_pos hdone]

theorem plainToken_numberText (hbase : 2 ≤ base ∧ base ≤ 16) (n : Nat) : PlainToken (numberText base n) :=
  ⟨numberText_ne_nil base n, fun ch hch => by
    obtain ⟨d, hd, rfl⟩ := numberText_units hbase n ch hch
    obtain ⟨-, -, h1, h2, h3, -⟩ := digitUnit_spec d (by omega)
    exact ⟨h1, h2, h3⟩⟩

theorem plainToken_append (ht : PlainToken t) (hvalue : PlainToken value) : PlainToken (t ++ value) :=
  ⟨List.append_ne_nil_of_left_ne_nil ht.nonempty _, fun ch hch =>
    (List.mem_append.mp hch).elim (ht.units ch) (hvalue.units ch)⟩

theorem plainToken_shortText (n : Int) : PlainToken (shortText n) := by
  unfold shortText
  split_ifs
  · exact plainToken_append (t := [0x2D]) (plainToken_of_all (by decide)) (plainToken_numberText (by decide) _)
  · exact plainToken_numberText (by decide) _

theorem plainToken_handleText (handle : UInt64) : PlainToken (handleText handle) :=
  plainToken_append (plainToken_of_all (by decide)) (plainToken_numberText (by decide) _)

/-- `--width` and `--height`. -/
theorem reached_width {size : Int} (hsize : IsShort size) (h : ArgumentsReached line v a) (hne : line ≠ [])
    (hat : At v (wide "--width" :: shortText size :: ts)) :
    if 0 ≤ size then ∃ v', ArgumentsReached line v' { a with width := size.toNat } ∧ At v' ts
    else consoleArguments line = .error (.parse .invalidSizeValue) := by
  have hparse := parseSizeValue_shortText hsize
  split_ifs at hparse ⊢
  · refine reached_value h hat (plainToken_of_all (by decide)) (plainToken_shortText size) fun v w v' hv => ?_
    change (sizeOption w .missingWidthValue >>= _) = _
    rw [sizeOption_ok.mpr ⟨_, hv, hparse⟩]
    rfl
  · refine error_value h hne hat (plainToken_of_all (by decide)) (plainToken_shortText size) fun v w v' hv => ?_
    change (sizeOption w .missingWidthValue >>= _) = _
    rw [sizeOption, optionValue_ok.mpr hv]
    change ((parseSizeValue (shortText size) >>= _) >>= _) = _
    rw [hparse]
    rfl

theorem reached_height {size : Int} (hsize : IsShort size) (h : ArgumentsReached line v a) (hne : line ≠ [])
    (hat : At v (wide "--height" :: shortText size :: ts)) :
    if 0 ≤ size then ∃ v', ArgumentsReached line v' { a with height := size.toNat } ∧ At v' ts
    else consoleArguments line = .error (.parse .invalidSizeValue) := by
  have hparse := parseSizeValue_shortText hsize
  split_ifs at hparse ⊢
  · refine reached_value h hat (plainToken_of_all (by decide)) (plainToken_shortText size) fun v w v' hv => ?_
    change (sizeOption w .missingHeightValue >>= _) = _
    rw [sizeOption_ok.mpr ⟨_, hv, hparse⟩]
    rfl
  · refine error_value h hne hat (plainToken_of_all (by decide)) (plainToken_shortText size) fun v w v' hv => ?_
    change (sizeOption w .missingHeightValue >>= _) = _
    rw [sizeOption, optionValue_ok.mpr hv]
    change ((parseSizeValue (shortText size) >>= _) >>= _) = _
    rw [hparse]
    rfl

theorem handleText_value (handle : UInt64) :
    handlePrefix <+: handleText handle ∧ parseHandleValue ((handleText handle).drop 2) = .ok handle.toNat :=
  ⟨List.prefix_append .., parseHandleValue_numberText handle⟩

theorem reached_signal {handle : UInt64} (h : ArgumentsReached line v a) (hzero : a.signalHandle = 0)
    (hat : At v (wide "--signal" :: handleText handle :: ts)) :
    ∃ v', ArgumentsReached line v' { a with signalHandle := handle.toNat } ∧ At v' ts := by
  refine reached_value h hat (plainToken_of_all (by decide)) (plainToken_handleText handle) fun v w v' hv => ?_
  change (handleOption w a.signalHandle .duplicateSignalHandle .missingSignalValue >>= _) = _
  rw [handleOption_ok.mpr ⟨hzero, _, hv, handleText_value handle⟩]
  rfl

theorem reached_server {handle : UInt64} (h : ArgumentsReached line v a) (hzero : a.serverHandle = 0)
    (hat : At v (wide "--server" :: handleText handle :: ts)) :
    ∃ v', ArgumentsReached line v' { a with serverHandle := handle.toNat } ∧ At v' ts := by
  refine reached_value h hat (plainToken_of_all (by decide)) (plainToken_handleText handle) fun v w v' hv => ?_
  change (handleOption w a.serverHandle .duplicateServerHandle .missingServerValue >>= _) = _
  rw [handleOption_ok.mpr ⟨hzero, _, hv, handleText_value handle⟩]
  rfl

variable (a') in
/-- An option without a value that may be left out. -/
theorem reached_optional {p : Prop} [Decidable p] (h : ArgumentsReached line v a) (hat : At v ((if p then [t] else []) ++ ts))
    (ht : PlainToken t) (hbranch : ∀ v w, branch v w a t (.ofToken t) = .ok (.more w a')) :
    ∃ v', ArgumentsReached line v' (if p then a' else a) ∧ At v' ts := by
  split_ifs at hat ⊢
  · exact reached_flag a' h hat ht hbranch
  · exact ⟨v, h, hat⟩

theorem reached_textMeasurement {mode : TextMeasurementMode} (h : ArgumentsReached line v a)
    (hat : At v (wide "--textMeasurement" :: value :: ts)) (hvalue : PlainToken value)
    (hmode : ∀ w v', Value w value v' → textMeasurementOption w = .ok (mode, v')) :
    ∃ v', ArgumentsReached line v' { a with textMeasurement := mode } ∧ At v' ts := by
  refine reached_value h hat (plainToken_of_all (by decide)) hvalue fun v w v' hv => ?_
  change (textMeasurementOption w >>= _) = _
  rw [hmode w v' hv]
  rfl

end Rounds

/-! ## The whole line -/

/-- The measurement that the flags of `CreatePseudoConsole` ask for. -/
def textMeasurementOf (flags : UInt32) : TextMeasurementMode :=
  if flags &&& 0x18 = 0x08 then .graphemes else if flags &&& 0x18 = 0x10 then .wcswidth else .console

/-- What the host gets to know. -/
def hostArguments (line : List UInt16) (width height : Int) (signal server : UInt64) (flags : UInt32) : ConsoleArguments where
  originalCommandLine := line
  headless := true
  inheritCursor := flags &&& 1 ≠ 0
  ambiguousIsWide := flags &&& 0x20 ≠ 0
  textMeasurement := textMeasurementOf flags
  width := width.toNat
  height := height.toNat
  signalHandle := signal.toNat
  serverHandle := server.toNat

theorem reached_flags {line : List UInt16} {v : View} (flags : UInt32) {ts : List (List UInt16)}
    (h : ArgumentsReached line v { originalCommandLine := line })
    (hat : At v ([wide "--headless"] ++ (if flags &&& 1 ≠ 0 then [wide "--inheritcursor"] else []) ++
      (if flags &&& 0x20 ≠ 0 then [wide "--ambiguousIsWide"] else []) ++
      (if flags &&& 0x18 = 0x08 then [wide "--textMeasurement", wide "graphemes"]
       else if flags &&& 0x18 = 0x10 then [wide "--textMeasurement", wide "wcswidth"]
       else if flags &&& 0x18 = 0x18 then [wide "--textMeasurement", wide "console"]
       else []) ++ ts)) :
    ∃ v', ArgumentsReached line v'
        { originalCommandLine := line
          textMeasurement := textMeasurementOf flags
          headless := true
          inheritCursor := flags &&& 1 ≠ 0
          ambiguousIsWide := flags &&& 0x20 ≠ 0 } ∧ At v' ts := by
  simp only [List.append_assoc, List.singleton_append] at hat
  obtain ⟨v, h, hat⟩ := reached_flag { originalCommandLine := line, headless := true } h hat (plainToken_of_all (by decide))
    fun _ _ => rfl
  obtain ⟨v, h, hat⟩ := reached_optional { originalCommandLine := line, headless := true, inheritCursor := true } h hat
    (plainToken_of_all (by decide)) fun _ _ => rfl
  have hinherit : (if flags &&& 1 ≠ 0 then ({ originalCommandLine := line, headless := true, inheritCursor := true } : ConsoleArguments)
      else { originalCommandLine := line, headless := true }) =
      { originalCommandLine := line, headless := true, inheritCursor := flags &&& 1 ≠ 0 } := by
    split_ifs with hp
    · rw [decide_eq_true hp]
    · rw [decide_eq_false hp]
  rw [hinherit] at h
  obtain ⟨v, h, hat⟩ := reached_optional
    { originalCommandLine := line, headless := true, inheritCursor := flags &&& 1 ≠ 0, ambiguousIsWide := true } h hat
    (plainToken_of_all (by decide)) fun _ _ => rfl
  have hambiguous : (if flags &&& 0x20 ≠ 0 then
      ({ originalCommandLine := line, headless := true, inheritCursor := flags &&& 1 ≠ 0, ambiguousIsWide := true } : ConsoleArguments)
      else { originalCommandLine := line, headless := true, inheritCursor := flags &&& 1 ≠ 0 }) =
      { originalCommandLine := line, headless := true, inheritCursor := flags &&& 1 ≠ 0, ambiguousIsWide := flags &&& 0x20 ≠ 0 } := by
    split_ifs with hp
    · rw [decide_eq_true hp]
    · rw [decide_eq_false hp]
  rw [hambiguous] at h
  unfold textMeasurementOf
  split_ifs at hat ⊢
  · exact reached_textMeasurement h hat (plainToken_of_all (by decide)) fun w v' hv => by
      rw [textMeasurementOption, optionValue_ok.mpr hv]
      rfl
  · exact reached_textMeasurement h hat (plainToken_of_all (by decide)) fun w v' hv => by
      rw [textMeasurementOption, optionValue_ok.mpr hv]
      rfl
  · exact reached_textMeasurement h hat (plainToken_of_all (by decide)) fun w v' hv => by
      rw [textMeasurementOption, optionValue_ok.mpr hv]
      rfl
  · exact ⟨v, h, hat⟩

/-- The host reads what its command line was built from, whatever the path, the
handles and the flags, unless a size is negative. -/
theorem host_command_line_read {path : List UInt16} (hpath : quoteChar ∉ path) {width height : Int} (hw : IsShort width)
    (hh : IsShort height) (signal server : UInt64) (flags : UInt32) :
    let line := buildConhostCommandLine path width height signal server flags
    consoleArguments line =
      if 0 ≤ width ∧ 0 ≤ height then .ok (hostArguments line width height signal server flags)
      else .error (.parse .invalidSizeValue) := by
  intro line
  have hline : line = quoteChar :: cString path ++ [quoteChar] ++ plainText (hostTokens width height signal server flags) := by
    have hlen := length_hostCommandLineText path hw hh signal server flags
    rw [← hostCommandLineText_eq]
    exact if_neg (by omega)
  clear_value line
  have hne : line ≠ [] := by rw [hline]; simp
  have hquote : quoteChar ∉ cString path := fun h => hpath ((List.takeWhile_sublist _).subset h)
  obtain ⟨v, h, hat⟩ := at_start hquote hline
  obtain ⟨v, h, hat⟩ := reached_flags flags h hat
  have hround := reached_width hw h hne hat
  by_cases hwidth : 0 ≤ width
  · rw [if_pos hwidth] at hround
    obtain ⟨v, h, hat⟩ := hround
    have hround := reached_height hh h hne hat
    by_cases hheight : 0 ≤ height
    · rw [if_pos hheight] at hround
      obtain ⟨v, h, hat⟩ := hround
      obtain ⟨v, h, hat⟩ := reached_signal h rfl hat
      obtain ⟨v, h, hat⟩ := reached_server h rfl hat
      rw [if_pos ⟨hwidth, hheight⟩]
      exact arguments_eq h hne hat
    · rw [if_neg hheight] at hround
      rw [if_neg fun h => hheight h.2]
      exact hround
  · rw [if_neg hwidth] at hround
    rw [if_neg fun h => hwidth h.1]
    exact hround

/-- A terminal of 120 columns and 30 rows, with a path with blanks. -/
theorem host_command_line_read_sized :
    let line := buildConhostCommandLine (wide "C:\\a b\\corehost.exe") 120 30 0x1A4 0x88 0x28
    consoleArguments line = .ok (hostArguments line 120 30 0x1A4 0x88 0x28) :=
  host_command_line_read (by decide) (by decide) (by decide) 0x1A4 0x88 0x28

end Corehost.CommandLine
